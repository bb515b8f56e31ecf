import TestTree.Text.Basic

namespace TestTree.Text

/-- Lexicographic order by code point. -/
def le : Text → Text → Bool
  | [], _ => true
  | _ :: _, [] => false
  | a :: as, b :: bs => if a = b then le as bs else a.toNat < b.toNat

def lt (a b : Text) : Bool := le a b && a != b

end TestTree.Text
