namespace Parcel.Text

def bracketed (items : List String) : String :=
  "[" ++ ", ".intercalate items ++ "]"

def applied (name argument : String) : String :=
  name ++ "(" ++ argument ++ ")"

def record (name : String) (fields : List (String × String)) : String :=
  name ++ " \x7b " ++ ", ".intercalate (fields.map fun (field, text) => field ++ ": " ++ text) ++ " \x7d"

def optional (f : α → String) : Option α → String
  | none => "None"
  | some a => applied "Some" (f a)

end Parcel.Text
