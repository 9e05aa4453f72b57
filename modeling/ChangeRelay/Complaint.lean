namespace ChangeRelay.Complaint

def blanks (n : Nat) : String := String.ofList (List.replicate n ' ')

/-- A text behind a mark; its further lines are set in as far as the mark is wide. -/
def marked (mark s : String) : String :=
  mark ++ ("\n" ++ blanks mark.length).intercalate (s.splitOn "\n")

def number (n : Nat) : String := blanks (5 - (toString n).length) ++ toString n ++ ": "

def causes : List String → String
  | [] => ""
  | [s] => "\n\nCaused by:\n" ++ marked (blanks 4) s
  | ss => "\n\nCaused by:" ++ String.join (ss.mapIdx fun n s ↦ "\n" ++ marked (number n) s)

def text : List String → String
  | [] => ""
  | s :: ss => "Error: " ++ s ++ causes ss

end ChangeRelay.Complaint
