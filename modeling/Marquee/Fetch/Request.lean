/-!
# Requests

The pictures that a row lacks, each with the places that wait for it.
-/

namespace Marquee.Fetch

/-- A picture to ask for. -/
structure Request where
  url : String
  /-- The first of the emotes that wait for it. -/
  emoteId : String
  /-- The places that wait for it, in order. -/
  slots : List Nat
deriving DecidableEq

namespace Request

/-- Requests in the order of their addresses, each address once, with one more place
waiting. -/
def ask (url emoteId : String) (slot : Nat) : List Request → List Request
  | [] => [⟨url, emoteId, [slot]⟩]
  | r :: rs =>
    if url = r.url then { r with slots := r.slots ++ [slot] } :: rs
    else if url < r.url then ⟨url, emoteId, [slot]⟩ :: r :: rs
    else r :: ask url emoteId slot rs

end Request

end Marquee.Fetch
