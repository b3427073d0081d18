import IceOS.NodeModels

/-! What the registry keeps its entries by: import paths of the form `module:attribute`. Agents, tool factories and
workflow factories are registered alike, once under each name. -/
namespace IceOS

/-- `path.split(":", 1)`; `none` where there is no colon. -/
def splitImportPath (path : String) : Option (String × String) :=
  match path.toList.dropWhile (· ≠ ':') with
  | [] => none
  | _ :: attr => some (String.ofList (path.toList.takeWhile (· ≠ ':')),String.ofList attr)

theorem splitImportPath_append {module : String} (plain : ':' ∉ module.toList) (attr : String) :
    splitImportPath (module ++ ":" ++ attr) = some (module,attr) := by
  have colon : ":".toList = [':'] := rfl
  have before : ∀ c ∈ module.toList, decide (c ≠ ':') = true := by
    intro c inside
    exact decide_eq_true fun same => plain (same ▸ inside)
  have rest : (module ++ ":" ++ attr).toList.dropWhile (· ≠ ':') = ':' :: attr.toList := by
    rw [String.toList_append,String.toList_append,colon,List.append_assoc,List.dropWhile_append_of_pos before]
    rfl
  have name : (module ++ ":" ++ attr).toList.takeWhile (· ≠ ':') = module.toList := by
    rw [String.toList_append,String.toList_append,colon,List.append_assoc,List.takeWhile_append_of_pos before]
    simp
  simp only [splitImportPath,rest,name,String.ofList_toList]

def moduleNotFound (module : String) : Exn :=
  let text := "No module named " ++ PythonText.repr module
  ⟨text,"ModuleNotFoundError(" ++ PythonText.repr text ++ ")"⟩

def attributeError (module attr : String) : Exn :=
  let text := "module " ++ PythonText.repr module ++ " has no attribute " ++ PythonText.repr attr
  ⟨text,"AttributeError(" ++ PythonText.repr text ++ ")"⟩

def registryError (message : String) : Exn :=
  ⟨"Registry error: " ++ message,"RegistryError(" ++ PythonText.repr ("Registry error: " ++ message) ++ ")"⟩

/-- Registering a path again changes nothing, and another path for the name is refused. -/
def registerPath (conflict : String) (paths : OrderedDict String String) (name path : String) :
    Except Exn (OrderedDict String String) :=
  match paths.get? name with
  | some old => if old = path then .ok paths else .error (registryError conflict)
  | none => .ok (paths.set name path)

section RegisterPath

variable {conflict name path : String} {paths : OrderedDict String String}

theorem registerPath_known (known : paths.get? name = some path) : registerPath conflict paths name path = .ok paths := by
  simp only [registerPath,known,if_true]

theorem registerPath_fresh (fresh : paths.get? name = none) :
    registerPath conflict paths name path = .ok (paths.set name path) := by
  simp only [registerPath,fresh]

theorem registerPath_conflict {old : String} (known : paths.get? name = some old) (other : old ≠ path) :
    registerPath conflict paths name path = .error (registryError conflict) := by
  simp only [registerPath,known,other,if_false]

/-- A name is free for a path that it already has, or if it has none. -/
def PathFree (paths : OrderedDict String String) (name path : String) : Prop := ∀ old, paths.get? name = some old → old = path

instance : Decidable (PathFree paths name path) :=
  decidable_of_iff (∀ old ∈ paths.get? name, old = path) (by simp only [PathFree,Option.mem_def])

theorem registerPath_ok {registered : OrderedDict String String}
    (done : registerPath conflict paths name path = .ok registered) :
    PathFree paths name path ∧ registered.get? name = some path ∧
      ∀ j, name ≠ j → registered.get? j = paths.get? j := by
  cases found : paths.get? name with
  | none =>
    rw [registerPath_fresh found] at done
    cases done
    refine ⟨fun old known => ?_,OrderedDict.get?_set_same _ _ _,fun j other => OrderedDict.get?_set_other _ _ other⟩
    cases found.symm.trans known
  | some old =>
    by_cases same : old = path
    · subst same
      rw [registerPath_known found] at done
      cases done
      refine ⟨fun other known => ?_,found,fun j _ => rfl⟩
      cases found.symm.trans known
      rfl
    · rw [registerPath_conflict found same] at done
      cases done

theorem registerPath_free (conflict : String) (free : PathFree paths name path) :
    ∃ registered, registerPath conflict paths name path = .ok registered := by
  cases found : paths.get? name with
  | none => exact ⟨_,registerPath_fresh found⟩
  | some old =>
    obtain rfl := free old found
    exact ⟨_,registerPath_known found⟩

end RegisterPath

end IceOS
