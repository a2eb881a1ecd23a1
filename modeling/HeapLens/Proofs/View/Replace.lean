import HeapLens.Print.Tree

/-!
A view with another word in place of one of its children. Nothing else of the view changes: not its
line, not its address and not the number of omitted entries.
-/
namespace HeapLens

def Child.withWord (w : UInt64) (c : Child) : Child := { c with word := w }

namespace SequenceView

end SequenceView

namespace TableView

end TableView

namespace View

variable (v : View) (k : Nat) (w : UInt64)

end View
end HeapLens
