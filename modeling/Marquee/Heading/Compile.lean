import Marquee.Heading.Basic
import Marquee.Markup.Reader

/-!
# Compiling Markup

One pass from markup to a heading. The store is cleared first, so that nothing of an
earlier pass shows in a later one.
-/

namespace Marquee.Heading

open Fetch

/-- The heading of some markup, what the pass reports, and the store afterwards. -/
def compile (o : Options) (loader : Loader) (markup : String) (store : Store) :
    Heading × List Event × Store :=
  let (released, cleared, store) := store.clear
  let tokens := Markup.tokenize markup
  let (leaves, read) := Markup.parse tokens
  let (heading, laid, store) := ofLeaves o loader leaves store
  (heading,
    cleared ++ [.passStarted released, .markupSplit tokens.length] ++ read ++ laid, store)

end Marquee.Heading
