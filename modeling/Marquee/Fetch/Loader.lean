import Marquee.Fetch.Picture

/-!
# Loaders

A loader answers a request for a picture at an address. The answer is settled when the
request is made; how often one has to ask before it arrives is part of it.
-/

namespace Marquee.Fetch

open Scene

/-- An answer to a request. -/
structure Response where
  result : Except Error Texture
  /-- How many times the answer is still to come when it is asked for. -/
  delay : Nat := 0

/-- Whatever answers requests, by address. -/
abbrev Loader := String → Response

namespace Loader

/-- The loader that has nothing to do with any network. -/
def offline : Loader := fun url =>
  { result := .error (.texture "texture fetching is disabled" url) }

/-- The loader whose requests are all turned away before they are sent. -/
def refused : Loader := fun url =>
  { result := .error (.texture "request failed" url) }

/-- What a listed address answers. -/
inductive Answer where
  | texture (t : Texture)
  | picture (p : Picture)
  | failure (reason : String)

namespace Answer

/-- What an answer to a request for some address comes to. -/
def result (url : String) : Answer → Except Error Texture
  | texture t => .ok t
  | picture p => p.decode url
  | failure reason => .error (.texture reason url)

end Answer

/-- The loader of some listed addresses, each with its delay. -/
def ofList (listed : List (String × Answer × Nat)) : Loader := fun url =>
  match listed.lookup url with
  | some (answer, delay) => ⟨answer.result url, delay⟩
  | none => { result := .error (.texture "HTTP 404" url) }

end Loader

end Marquee.Fetch
