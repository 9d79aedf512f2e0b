import Ruuter.Step

/-! The project-scoped state store (`src/state/mod.rs`), one call at a time. -/
namespace Ruuter

/-- `StateKey`. -/
structure StateKey where
  project : String
  key : String
deriving DecidableEq

structure StateStore where
  inner : AList (fun _ : StateKey => Json) := ∅
  maxEntriesPerProject : Option Nat := none
  projectCounts : StringMap Nat := ∅

namespace StateStore

def get (s : StateStore) (project key : String) : Option Json := s.inner.lookup ⟨project,key⟩

/-- The rejection text of `set`. -/
def capMessage (project : String) (current cap : Nat) : String :=
  "state.set rejected for project '" ++ project ++ "': entry count " ++ toString current ++
    " reached the cap max_entries_per_project=" ++ toString cap ++
    " (h2ck.me v1 T-5). Delete unused keys or raise the cap in ruuter.yaml."

/-- An update never counts; a new key is counted and rejected at the cap. -/
def set (s : StateStore) (project key : String) (value : Json) : Except String StateStore :=
  if ⟨project,key⟩ ∈ s.inner then
    .ok { s with inner := s.inner.insert ⟨project,key⟩ value }
  else
    match s.maxEntriesPerProject with
    | none => .ok { s with inner := s.inner.insert ⟨project,key⟩ value }
    | some cap =>
      let current := (s.projectCounts.lookup project).getD 0
      if cap ≤ current then .error (capMessage project current cap)
      else
        .ok { s with
          inner := s.inner.insert ⟨project,key⟩ value
          projectCounts := s.projectCounts.insert project (current + 1) }

def delete (s : StateStore) (project key : String) : StateStore :=
  if ⟨project,key⟩ ∈ s.inner then
    { s with
      inner := s.inner.erase ⟨project,key⟩
      projectCounts :=
        match s.maxEntriesPerProject, s.projectCounts.lookup project with
        | some _, some count => s.projectCounts.insert project (count - 1)
        | _, _ => s.projectCounts }
  else s

end StateStore
end Ruuter
