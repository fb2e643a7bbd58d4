/-!
Columns of fixed width.
-/

namespace Dataflow.Text

/-- a text filled up with spaces to a width that counts characters -/
def padRight (width : Nat) (s : String) : String := s ++ String.ofList (List.replicate (width - s.length) ' ')

end Dataflow.Text
