import IceOS.NodeModels

/-! Whether a run goes on after errors. The failed nodes are read back from the error texts. -/
namespace IceOS

/-- The text that `Workflow.execute` records for a failed node. -/
def failureText (id : String) (error : Option String) : String :=
  s!"Node {id} failed: " ++ error.getD "None"

/-- `error.split("Node ")[1].split(" failed:")[0]`, when both separators occur. -/
def failedNodeId (error : String) : Option String :=
  if PythonText.contains "Node " error && PythonText.contains " failed:" error then
    (PythonText.split "Node " error)[1]?.bind fun piece => (PythonText.split " failed:" piece)[0]?
  else none

def failedNodes (errors : List String) : List String := errors.filterMap failedNodeId

/-- The scan covers every node of every level, and of its dependencies only the direct ones. -/
def shouldContinue (policy : FailurePolicy) (levels : List (List String))
    (nodes : OrderedDict String NodeConfig) (errors : List String) : Bool :=
  if errors.isEmpty then true
  else
    match policy with
    | .halt => false
    | .always => true
    | .continuePossible =>
      levels.flatten.any fun id =>
        id ∉ failedNodes errors && (((nodes.get? id).map (·.dependencies)).getD []).all fun dep =>
          dep ∉ failedNodes errors

/-- Ids that the error text gives back: "Node " must not occur in them, not even together
with the blank that follows, and neither must " failed:". -/
def CleanId (id : String) : Prop :=
  ¬"Node ".toList <:+: id.toList ++ [' '] ∧ ¬" failed:".toList <:+: id.toList

instance (id : String) : Decidable (CleanId id) := inferInstanceAs (Decidable (_ ∧ _))

theorem infix_of_suffix {sep left right id : List Char} (parts : id = left ++ right)
    (inside : sep <+: right) : sep <:+: id := by
  obtain ⟨rest,rfl⟩ := inside
  exact ⟨left,rest,by simp [parts]⟩

theorem failed_after_id {id tail : List Char} (clean : ¬" failed:".toList <:+: id) :
    PythonText.StartsAfter " failed:".toList id (" failed:".toList ++ tail) := by
  intro left right parts some found
  rcases PythonText.prefix_append_cases found with inside | ⟨k,more,split,reaches⟩
  · exact clean (infix_of_suffix parts inside)
  · -- the blank that opens the separator would occur a second time in it
    obtain ⟨c,r,rfl⟩ := List.exists_cons_of_ne_nil some
    obtain ⟨d,k,rfl⟩ := List.exists_cons_of_ne_nil more
    have blank : d = ' ' := (List.cons_prefix_cons.mp reaches).1
    have again : ' ' ∈ (" failed:".toList).tail := by rw [split,blank]; simp
    exact absurd again (by decide)

theorem node_after_id {id tail : List Char} (clean : ¬"Node ".toList <:+: id ++ [' ']) :
    PythonText.StartsAfter "Node ".toList (id ++ " failed:".toList) tail := by
  intro left right parts some found
  rcases List.append_eq_append_iff.mp parts with ⟨r,rfl,rest⟩ | ⟨r,rest,rfl⟩
  · obtain ⟨c,right,rfl⟩ := List.exists_cons_of_ne_nil some
    have initial : 'N' = c := (List.cons_prefix_cons.mp found).1
    have member : c ∈ " failed:".toList := by rw [rest]; simp
    exact absurd (initial ▸ member) (by decide)
  · rw [List.append_assoc] at found
    rcases PythonText.prefix_append_cases found with inside | ⟨k,more,split,reaches⟩
    · exact clean ((infix_of_suffix rest inside).trans (List.infix_append_left ..))
    · obtain ⟨d,k,rfl⟩ := List.exists_cons_of_ne_nil more
      have blank : d = ' ' := (List.cons_prefix_cons.mp reaches).1
      have last : k = [] := by
        by_contra further
        have again : ' ' ∈ ("Node ".toList).dropLast := by
          rw [split,blank,List.dropLast_append_of_ne_nil (by simp),List.dropLast_cons_of_ne_nil further]
          simp
        exact absurd again (by decide)
      apply clean
      rw [split,blank,last,rest,List.append_assoc]
      exact (List.suffix_append left _).isInfix

theorem failedNodeId_failureText {id : String} (clean : CleanId id) (error : Option String) :
    failedNodeId (failureText id error) = some id := by
  have shape : (failureText id error).toList =
      "Node ".toList ++ (id.toList ++ " failed:".toList ++ (' ' :: (error.getD "None").toList)) := by
    simp [failureText,toString]
  have hasNode : PythonText.contains "Node " (failureText id error) = true := by
    rw [PythonText.contains_iff,shape]
    exact (List.prefix_append _ _).isInfix
  have hasFailed : PythonText.contains " failed:" (failureText id error) = true := by
    rw [PythonText.contains_iff,shape]
    exact ⟨"Node ".toList ++ id.toList,' ' :: (error.getD "None").toList,by simp⟩
  have pieces := PythonText.cut_prepend "Node ".toList _ (' ' :: (error.getD "None").toList)
    (node_after_id clean.1)
  have first := PythonText.cut_found "Node ".toList
    (id.toList ++ " failed:".toList ++ (' ' :: (error.getD "None").toList)) (by decide)
  obtain ⟨rest,more,cuts⟩ := List.exists_cons_of_ne_nil
    (PythonText.cut_ne_nil "Node ".toList 0 (' ' :: (error.getD "None").toList))
  have second := PythonText.cut_prepend " failed:".toList id.toList (" failed:".toList ++ rest)
    (failed_after_id clean.2)
  rw [PythonText.cut_found _ _ (by decide)] at second
  simp only [failedNodeId,hasNode,hasFailed,PythonText.split,shape,first,pieces,cuts]
  generalize " failed:".toList = mark at second ⊢
  simp [second]

end IceOS
