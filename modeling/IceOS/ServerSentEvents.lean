import IceOS.PythonText
import Mathlib.Data.List.Forall2
import Mathlib.Data.String.Basic

/-! Texts of several lines, and how a browser reads the lines of an event stream. -/
namespace ServerSentEvents

/-- Lines with a line break behind all but the last. -/
def joinLines (lines : List String) : String := "\n".intercalate lines

theorem toList_joinLines (line : String) (more : List String) : (joinLines (line :: more)).toList =
    line.toList ++ more.flatMap fun other => '\n' :: other.toList := by
  induction more generalizing line with
  | nil => simp [joinLines]
  | cons next rest ih =>
    have step : joinLines (line :: next :: rest) = line ++ "\n" ++ joinLines (next :: rest) := by
      simp [joinLines,String.intercalate_cons_cons]
    rw [step,String.toList_append,String.toList_append,ih]
    simp

/-- Lines that are joined are the pieces between the breaks. -/
theorem split_joinLines {line : String} {more : List String} (whole : ∀ text ∈ line :: more, '\n' ∉ text.toList) :
    PythonText.split "\n" (joinLines (line :: more)) = line :: more := by
  have chars : PythonText.cut ['\n'] 0 (joinLines (line :: more)).toList = (line :: more).map String.toList := by
    rw [toList_joinLines]
    induction more generalizing line with
    | nil =>
      rw [List.flatMap_nil,List.append_nil,PythonText.cut_clear]
      · rfl
      · exact fun inside => whole line List.mem_cons_self (inside.subset List.mem_cons_self)
    | cons next rest ih =>
      obtain ⟨first,later⟩ := List.forall_mem_cons.mp whole
      rw [PythonText.cut_prepend _ _ _ (PythonText.startsAfter_char first _),List.flatMap_cons,
        show '\n' :: next.toList = ['\n'] ++ next.toList from rfl,List.append_assoc,
        PythonText.cut_found _ _ (List.cons_ne_nil _ _),ih later]
      simp
  rw [PythonText.split,show "\n".toList = ['\n'] from rfl,chars,List.map_map]
  exact List.map_id'' (fun text => String.ofList_toList) _

/-! ### What a browser dispatches -/

structure Message where
  type : String
  data : String
  deriving DecidableEq, Repr

/-- What has been read of a message. -/
structure Partial where
  type : String := ""
  data : List String := []

/-- The name before the first colon, and what stands behind it and a blank. -/
def field (line : String) : String × String :=
  (String.ofList (line.toList.takeWhile (· ≠ ':')),
    String.ofList <|
      match line.toList.dropWhile (· ≠ ':') with
      | ':' :: ' ' :: value => value
      | ':' :: value => value
      | _ => [])

def Partial.add (p : Partial) (name value : String) : Partial :=
  if name = "event" then { p with type := value }
  else if name = "data" then { p with data := p.data ++ [value] }
  else p

/-- An empty line ends a message, which is dispatched if it has data. -/
def Partial.finish (p : Partial) : List Message :=
  if p.data = [] then [] else [⟨if p.type = "" then "message" else p.type,joinLines p.data⟩]

def parse (p : Partial) : List String → List Message
  | [] => []
  | line :: rest =>
    if line = "" then p.finish ++ parse {} rest else parse (p.add (field line).1 (field line).2) rest

theorem field_named {name value : String} (plain : ':' ∉ name.toList) : field (name ++ ": " ++ value) = (name,value) := by
  have shape : (name ++ ": " ++ value).toList = name.toList ++ ':' :: ' ' :: value.toList := by simp
  have before : ∀ c ∈ name.toList, decide (c ≠ ':') = true := by
    intro c member
    exact decide_eq_true fun same => plain (same ▸ member)
  rw [field,shape,List.takeWhile_append_of_pos before,List.dropWhile_append_of_pos before]
  simp

/-- A field on a line of its own. -/
theorem parse_field (p : Partial) {name value : String} (plain : ':' ∉ name.toList) (rest : List String) :
    parse p ((name ++ ": " ++ value) :: rest) = parse (p.add name value) rest := by
  have shown : name ++ ": " ++ value ≠ "" := by
    intro empty
    have none := congrArg String.toList empty
    simp at none
  rw [parse,if_neg shown,field_named plain]

theorem parse_blank (p : Partial) (rest : List String) : parse p ("" :: rest) = p.finish ++ parse {} rest := by
  rw [parse,if_pos rfl]

/-- Lines of data that are ended by an empty one are a message of no type. -/
theorem parse_data (p : Partial) (data rest : List String) :
    parse p (data.map ("data: " ++ ·) ++ "" :: rest) =
      ({ p with data := p.data ++ data } : Partial).finish ++ parse {} rest := by
  induction data generalizing p with
  | nil => simp [parse_blank]
  | cons line more ih =>
    have named : "data: " ++ line = "data" ++ ": " ++ line := rfl
    rw [List.map_cons,List.cons_append,named,parse_field p (by decide),ih]
    simp [Partial.add]

end ServerSentEvents
