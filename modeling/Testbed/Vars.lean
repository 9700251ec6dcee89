/-! Variables by name, in ascending order of their names. -/
namespace Testbed

abbrev Vars := List (String × String)

namespace Vars

def get? (vars : Vars) (name : String) : Option String :=
  (vars.find? (fun v => v.1 == name)).map Prod.snd

/-- Gives a variable a value and keeps the order. -/
def set (name value : String) : Vars → Vars
  | [] => [(name, value)]
  | v :: rest =>
    if name < v.1 then (name, value) :: v :: rest
    else if name = v.1 then (name, value) :: rest
    else v :: set name value rest

/-- The variables of both; `newer` wins. -/
def overlay (vars : Vars) (newer : List (String × String)) : Vars :=
  newer.foldl (fun vs v => set v.1 v.2 vs) vars

end Vars

end Testbed
