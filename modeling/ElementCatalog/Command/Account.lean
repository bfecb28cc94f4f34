/-!
# Accounts

A machine lists its accounts in a file, one in each line, with seven fields between colons: the
third is the number of the account and the sixth its home directory. What a process is doing is
told in lines as well, of which one gives the number of its account.
-/

namespace ElementCatalog.Account

/-- The lines of a text. -/
def lines (text : String) : List String :=
  text.splitOn "\n"

/-- The number of the account that a process belongs to, from what is told about the process. -/
def numberOf? (status : String) : Option String :=
  (lines status).findSome? fun line =>
    match line.splitOn "\t" with
    | "Uid:" :: number :: _ => some number
    | _ => none

/-- The home directory of the first account with a number, if it has one. -/
def homeOf? (accounts number : String) : Option String := do
  let home ← (lines accounts).findSome? fun line =>
    match line.splitOn ":" with
    | [_, _, found, _, _, home, _] => if found = number then some home else none
    | _ => none
  if home = "" then none else some home

end ElementCatalog.Account
