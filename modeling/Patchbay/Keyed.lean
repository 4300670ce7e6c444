namespace Patchbay.Keyed

variable {κ α : Type} [Ord κ]

def insert (key : κ) (value : α) : List (κ × α) → List (κ × α)
  | [] => [(key, value)]
  | (k, v) :: rest =>
    match compare key k with
    | .lt => (key, value) :: (k, v) :: rest
    | .eq => (key, value) :: rest
    | .gt => (k, v) :: insert key value rest

def ofList (entries : List (κ × α)) : List (κ × α) :=
  entries.foldl (fun sorted (k, v) => insert k v sorted) []

def get? (entries : List (κ × α)) (key : κ) : Option α :=
  (entries.find? fun (k, _) => compare k key == .eq).map Prod.snd

end Patchbay.Keyed
