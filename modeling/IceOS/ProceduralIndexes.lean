import IceOS.ActionRuns
import IceOS.ProceduralMemory

/-! What the procedural memory records of one key, and when all of it refers to the stored procedures. The
execution counts are filed by domain, and deleting a procedure looks for its key among the domains. -/
namespace IceOS

open ActionRuns

/-! ### All that is recorded of one key -/

/-- How often the key is filed under a category and a type, and under a domain and a context; and its count and its
scores in a domain. -/
@[ext] structure ProcedureTrace (ρ : Type) where
  procedure : Option (Procedure ρ)
  filed : String → String → Nat
  fits : String → String → Nat
  usage : String → Nat
  scores : String → List ρ

namespace ProcedureTrace

variable {ρ : Type}

def blank : ProcedureTrace ρ where
  procedure := none
  filed _ _ := 0
  fits _ _ := 0
  usage _ := 0
  scores _ := []

def store (p : Procedure ρ) (trace : ProcedureTrace ρ) : ProcedureTrace ρ :=
  { trace with
    procedure := some p
    filed := fun c t => trace.filed c t + if p.category = c ∧ p.type = t then 1 else 0
    fits := fun d c => trace.fits d c + if p.domain = d then p.contexts.count c else 0 }

/-- What deleting `key` makes of its own trace. -/
def delete (key : String) (p : Procedure ρ) (trace : ProcedureTrace ρ) : ProcedureTrace ρ where
  procedure := none
  filed c t := trace.filed c t - if p.category = c ∧ p.type = t then 1 else 0
  fits d c := trace.fits d c - if p.domain = d then p.contexts.count c else 0
  usage d := if key = d then 0 else trace.usage d
  scores _ := []

/-- What deleting a key makes of the traces of the others. -/
def spoil (key : String) (trace : ProcedureTrace ρ) : ProcedureTrace ρ :=
  { trace with usage := fun d => if key = d then 0 else trace.usage d }

/-- The executions that are counted in a domain. -/
def executions (trace : ProcedureTrace ρ) (domain : String) : Nat :=
  trace.procedure.elim 0 fun p => if p.domain = domain then p.usageCount else 0

/-- The key is filed once where its procedure belongs and nowhere else, and the executions are counted and scored in the
domain of the procedure only. -/
structure Mirrored (trace : ProcedureTrace ρ) : Prop where
  filed : ∀ c t, trace.filed c t = if trace.procedure.any (fun p => p.category = c && p.type = t) then 1 else 0
  fits : ∀ d c, trace.fits d c = if trace.procedure.any (fun p => p.domain = d && p.contexts.contains c) then 1 else 0
  usage : ∀ d, trace.usage d = trace.executions d
  scores : ∀ d, (trace.scores d).length = trace.executions d

theorem blank_mirrored : (blank : ProcedureTrace ρ).Mirrored where
  filed _ _ := rfl
  fits _ _ := rfl
  usage _ := rfl
  scores _ := rfl

/-- Nothing is recorded of a key without a procedure. -/
theorem Mirrored.eq_blank {trace : ProcedureTrace ρ} (mirrored : trace.Mirrored) (absent : trace.procedure = none) :
    trace = blank := by
  refine ProcedureTrace.ext absent ?_ ?_ ?_ ?_
  · funext c t
    rw [mirrored.filed,absent]
    rfl
  · funext d c
    rw [mirrored.fits,absent]
    rfl
  · funext d
    rw [mirrored.usage,executions,absent]
    rfl
  · funext d
    have empty := mirrored.scores d
    rw [executions,absent] at empty
    exact List.length_eq_zero_iff.mp empty

end ProcedureTrace

namespace ProceduralMemory

variable {ρ δ : Type} {rules : ProceduralRules ρ δ} {s t : ProceduralMemory ρ}

def trace (s : ProceduralMemory ρ) (k : String) : ProcedureTrace ρ where
  procedure := s.procedures.get? k
  filed c t := (s.categoryIndex.list c t).count k
  fits d c := (s.contextIndex.list d c).count k
  usage d := s.usage d k
  scores d := s.successMetrics.list d k

theorem usage_set (s : ProceduralMemory ρ) (domain key : String) (count : Nat) (d k : String) :
    (((s.usageCounts.set domain (((s.usageCounts.get? domain).getD .empty).set key count)).get? d).bind
      fun counts => counts.get? k).getD 0 = if domain = d ∧ key = k then count else s.usage d k := by
  rw [OrderedDict.get?_set,usage]
  by_cases same : domain = d
  · subst same
    simp only [if_true,Option.bind_some,OrderedDict.get?_set,true_and]
    by_cases here : key = k
    · simp [here]
    · simp only [here,if_false]
      cases s.usageCounts.get? domain with
      | none => rfl
      | some counts => rfl
  · simp [same]

/-- Storing a procedure adds to the trace of its key and to nothing else. -/
theorem store_trace {content : Value} (valid : content.isProcedure = true) (key : String) (metadata : ProcedureMetadata ρ)
    (s : ProceduralMemory ρ) (k : String) : (s.store rules key content metadata).trace k =
      if key = k then (s.trace key).store (metadata.complete rules.half content) else s.trace k := by
  simp only [store,valid,Bool.not_true,Bool.false_eq_true,if_false]
  by_cases same : key = k
  · subst same
    rw [if_pos rfl]
    refine ProcedureTrace.ext (OrderedDict.get?_set_same _ _ _) ?_ ?_ rfl rfl
    · funext c t
      simp only [trace,NestedIndex.count_append,if_true,ProcedureTrace.store]
    · funext d c
      simp only [trace,NestedIndex.count_foldl_append,and_true,ProcedureTrace.store]
  · rw [if_neg same]
    refine ProcedureTrace.ext (OrderedDict.get?_set_other _ _ same) ?_ ?_ rfl rfl
    · funext c t
      simp only [trace,NestedIndex.count_append,if_neg same,Nat.add_zero]
    · funext d c
      simp only [trace,NestedIndex.count_foldl_append,same,and_false,if_false,Nat.add_zero]

theorem delete_trace {key : String} {p : Procedure ρ} (stored : s.procedures.get? key = some p) (k : String) :
    (s.delete key).trace k = if key = k then (s.trace key).delete key p else (s.trace k).spoil key := by
  have usage (d : String) : (s.delete key).usage d k = if key = d then 0 else s.usage d k := by
    simp only [delete,stored,ProceduralMemory.usage,OrderedDict.get?_erase_eq_update,Function.update_apply]
    by_cases here : key = d
    · simp [here]
    · simp [here,Ne.symm here]
  have scores (d : String) : (s.delete key).successMetrics.list d k = if key = k then [] else s.successMetrics.list d k := by
    simp only [delete,stored]
    exact NestedIndex.list_mapValues_erase s.successMetrics key d k
  have procedure : (s.delete key).procedures.get? k = if key = k then none else s.procedures.get? k := by
    simp only [delete,stored,OrderedDict.get?_erase_eq_update,Function.update_apply,eq_comm]
  by_cases same : key = k
  · subst same
    rw [if_pos rfl]
    refine ProcedureTrace.ext (procedure.trans (if_pos rfl)) ?_ ?_ (funext usage) (funext fun d => (scores d).trans (if_pos rfl))
    · funext c t
      simp only [trace,delete,stored,NestedIndex.count_removeIfListed,if_true,ProcedureTrace.delete]
    · funext d c
      simp only [trace,delete,stored,NestedIndex.count_foldl_removeIfListed,and_true,ProcedureTrace.delete]
  · rw [if_neg same]
    refine ProcedureTrace.ext (procedure.trans (if_neg same)) ?_ ?_ (funext usage)
      (funext fun d => (scores d).trans (if_neg same))
    · funext c t
      simp only [trace,delete,stored,NestedIndex.count_removeIfListed,if_neg same,Nat.sub_zero,ProcedureTrace.spoil]
    · funext d c
      simp only [trace,delete,stored,NestedIndex.count_foldl_removeIfListed,same,and_false,if_false,Nat.sub_zero,
        ProcedureTrace.spoil]

/-- An execution is counted and scored in the domain of its procedure. -/
theorem recordExecution_mirrored {key : String} (outcome : ExecutionOutcome ρ δ) (now : Int)
    (mirrored : ∀ k, (s.trace k).Mirrored) (k : String) : ((s.recordExecution rules key outcome now).trace k).Mirrored := by
  cases stored : s.procedures.get? key with
  | none =>
    simp only [recordExecution,stored]
    exact mirrored k
  | some p =>
    by_cases same : key = k
    · subst same
      have before := mirrored key
      have counted (d : String) : s.usage d key = if p.domain = d then p.usageCount else 0 := by
        have usage := before.usage d
        simpa only [trace,ProcedureTrace.executions,stored,Option.elim_some] using usage
      have scored (d : String) : (s.successMetrics.list d key).length = if p.domain = d then p.usageCount else 0 := by
        have scores := before.scores d
        simpa only [trace,ProcedureTrace.executions,stored,Option.elim_some] using scores
      have filed := before.filed
      have fits := before.fits
      simp only [trace,stored,Option.any_some] at filed fits
      constructor
      · simpa only [trace,recordExecution,stored,OrderedDict.get?_set_same,Option.any_some] using filed
      · simpa only [trace,recordExecution,stored,OrderedDict.get?_set_same,Option.any_some] using fits
      · intro d
        simp only [trace,recordExecution,stored,OrderedDict.get?_set_same,ProcedureTrace.executions,Option.elim_some]
        rw [usage,usage_set,counted,counted]
        by_cases here : p.domain = d
        · simp [here]
        · simp [here]
      · intro d
        simp only [trace,recordExecution,stored,OrderedDict.get?_set_same,ProcedureTrace.executions,Option.elim_some,
          NestedIndex.list_append]
        by_cases here : p.domain = d
        · simp [here,counted,scored]
        · simp [here,scored]
    · have before := mirrored k
      have kept : (s.recordExecution rules key outcome now).trace k = s.trace k := by
        simp only [recordExecution,stored]
        refine ProcedureTrace.ext (OrderedDict.get?_set_other _ _ same) rfl rfl ?_ ?_
        · funext d
          exact (usage_set s p.domain key _ d k).trans (if_neg fun both => same both.2)
        · funext d
          exact (NestedIndex.list_append _ _ _ _ _ _).trans (if_neg fun both => same both.2)
      rw [kept]
      exact before

end ProceduralMemory

namespace ProcedureTrace

variable {ρ : Type} {trace : ProcedureTrace ρ}

/-- A procedure may be stored where none was, if its contexts are distinct; the first entry of another one would stay. -/
theorem store_mirrored_iff (mirrored : trace.Mirrored) {p : Procedure ρ} (unused : p.usageCount = 0) :
    (trace.store p).Mirrored ↔ trace.procedure = none ∧ p.contexts.Nodup := by
  constructor
  · intro stored
    have absent : trace.procedure = none := by
      cases found : trace.procedure with
      | none => rfl
      | some old =>
        have here := stored.filed old.category old.type
        have once := mirrored.filed old.category old.type
        simp only [found,Option.any_some,decide_true,Bool.and_self,if_true] at once
        simp only [store,once,Option.any_some,Bool.and_eq_true,decide_eq_true_eq] at here
        split at here
        · omega
        · omega
    refine ⟨absent,List.nodup_iff_count_le_one.mpr fun c => ?_⟩
    have here : trace.fits p.domain c + (if p.domain = p.domain then p.contexts.count c else 0) = _ :=
      stored.fits p.domain c
    rw [if_pos rfl] at here
    split at here
    · omega
    · omega
  · rintro ⟨absent,nodup⟩
    rw [mirrored.eq_blank absent]
    constructor
    · intro c t
      simp [store,blank]
    · intro d c
      simp only [store,blank,NestedIndex.count_eq_of_nodup nodup,Option.any_some,Bool.and_eq_true,decide_eq_true_eq]
      by_cases same : p.domain = d
      · simp [same]
      · simp [same]
    · intro d
      simp [store,blank,executions,unused]
    · intro d
      simp [store,blank,executions,unused]

/-- Deleting forgets all of the key, except for the executions in a domain that has another name. -/
theorem delete_eq_blank_iff (mirrored : trace.Mirrored) {p : Procedure ρ} (stored : trace.procedure = some p)
    (nodup : p.contexts.Nodup) (key : String) :
    trace.delete key p = blank ↔ p.usageCount = 0 ∨ p.domain = key := by
  have usage (d : String) : trace.usage d = if p.domain = d then p.usageCount else 0 := by
    rw [mirrored.usage,executions,stored]
    rfl
  constructor
  · intro forgotten
    have here := congrArg (fun trace => ProcedureTrace.usage trace p.domain) forgotten
    simp only [delete,blank,usage,if_true] at here
    split at here
    · next same => exact .inr same.symm
    · exact .inl here
  · intro fine
    refine ProcedureTrace.ext rfl ?_ ?_ ?_ rfl
    · funext c t
      simp [delete,blank,mirrored.filed,stored]
    · funext d c
      simp only [delete,blank,mirrored.fits,stored,NestedIndex.count_eq_of_nodup nodup,Option.any_some]
      by_cases same : p.domain = d
      · simp [same]
      · simp [same]
    · funext d
      simp only [delete,blank,usage]
      rcases fine with zero | same
      · simp [zero]
      · by_cases here : key = d
        · simp [here]
        · simp [here,same]

theorem spoil_eq_iff (mirrored : trace.Mirrored) (key : String) : trace.spoil key = trace ↔ trace.executions key = 0 := by
  rw [← mirrored.usage]
  constructor
  · intro kept
    have here := congrArg (fun trace => ProcedureTrace.usage trace key) kept
    simpa only [spoil,if_true,eq_comm] using here
  · intro zero
    refine ProcedureTrace.ext rfl rfl rfl ?_ rfl
    funext d
    by_cases here : key = d
    · subst here
      simp [spoil,zero]
    · simp [spoil,here]

/-- A trace that has lost its executions in a domain is no longer in order, unless there were none. -/
theorem spoil_mirrored_iff (mirrored : trace.Mirrored) (key : String) :
    (trace.spoil key).Mirrored ↔ trace.executions key = 0 := by
  constructor
  · intro spoiled
    have here := spoiled.usage key
    simpa only [spoil,executions,if_true,eq_comm] using here
  · intro zero
    rw [(spoil_eq_iff mirrored key).mpr zero]
    exact mirrored

end ProcedureTrace

namespace ProceduralMemory

variable {ρ δ : Type} {rules : ProceduralRules ρ δ} {s t : ProceduralMemory ρ}

/-! ### Runs -/

/-- All that is recorded refers to the stored procedures. -/
def Mirrors (s : ProceduralMemory ρ) : Prop := ∀ k, (s.trace k).Mirrored

structure Sound (s : ProceduralMemory ρ) : Prop where
  mirrored : s.Mirrors
  distinct : ∀ k p, s.procedures.get? k = some p → p.contexts.Nodup

/-- A procedure is stored under an unused key with distinct contexts. One that is deleted has not been executed, or its
domain has the name of its key; and no other procedure of a domain of that name has been executed. -/
def Careful (s : ProceduralMemory ρ) : ProceduralRequest ρ δ → Prop
  | .store key content metadata =>
    content.isProcedure = true → s.procedures.get? key = none ∧ (metadata.contexts.getD []).Nodup
  | .delete key =>
    ∀ p, s.procedures.get? key = some p → (p.usageCount = 0 ∨ p.domain = key) ∧
      ∀ j q, key ≠ j → s.procedures.get? j = some q → q.domain = key → q.usageCount = 0
  | .recordExecution _ _ _ => True

/-- Nothing of the key is left, and the other traces are what they were. -/
def Erased (s t : ProceduralMemory ρ) (key : String) : Prop :=
  t.trace key = .blank ∧ ∀ j, key ≠ j → t.trace j = s.trace j

theorem executions_zero_iff (j key : String) : (s.trace j).executions key = 0 ↔
    ∀ q, s.procedures.get? j = some q → q.domain = key → q.usageCount = 0 := by
  simp only [ProcedureTrace.executions,trace]
  cases s.procedures.get? j with
  | none => simp
  | some q => simp

section Steps

variable (sound : s.Sound)

include sound

theorem store_careful_iff {key : String} {content : Value} {metadata : ProcedureMetadata ρ} :
    (s.store rules key content metadata).Mirrors ↔ s.Careful (δ := δ) (.store key content metadata) := by
  cases valid : content.isProcedure with
  | false =>
    have same : s.store rules key content metadata = s := by
      simp only [store,valid,Bool.not_false,if_true]
    rw [same]
    exact ⟨fun _ valid' => absurd (valid.symm.trans valid') (by decide),fun _ => sound.mirrored⟩
  | true =>
    have stored := ProcedureTrace.store_mirrored_iff (sound.mirrored key) (p := metadata.complete rules.half content) rfl
    constructor
    · intro mirrors _
      have here := mirrors key
      rw [store_trace valid,if_pos rfl] at here
      exact stored.mp here
    · intro careful k
      rw [store_trace valid]
      split
      · exact stored.mpr (careful valid)
      · exact sound.mirrored k

theorem delete_careful_iff {key : String} : (s.delete key).Mirrors ↔ s.Careful (δ := δ) (.delete key) := by
  cases stored : s.procedures.get? key with
  | none =>
    have same : s.delete key = s := by
      simp only [delete,stored]
    rw [same]
    refine ⟨fun _ p found => ?_,fun _ => sound.mirrored⟩
    cases stored.symm.trans found
  | some p =>
    have forgotten := ProcedureTrace.delete_eq_blank_iff (sound.mirrored key) stored (sound.distinct key p stored) key
    have others (j : String) := (ProcedureTrace.spoil_mirrored_iff (sound.mirrored j) key).trans (executions_zero_iff j key)
    constructor
    · intro mirrors q found
      cases stored.symm.trans found
      refine ⟨forgotten.mp ?_,fun j q other => (others j).mp ?_ q⟩
      · have here := mirrors key
        rw [delete_trace stored,if_pos rfl] at here
        exact here.eq_blank rfl
      · have there := mirrors j
        rwa [delete_trace stored,if_neg other] at there
    · intro careful k
      obtain ⟨own,rest⟩ := careful p stored
      rw [delete_trace stored]
      split
      · rw [forgotten.mpr own]
        exact ProcedureTrace.blank_mirrored
      · next other => exact (others k).mpr fun q => rest k q other

theorem delete_erased {key : String} (careful : s.Careful (δ := δ) (.delete key)) : Erased s (s.delete key) key := by
  cases stored : s.procedures.get? key with
  | none =>
    have same : s.delete key = s := by
      simp only [delete,stored]
    rw [same]
    exact ⟨(sound.mirrored key).eq_blank stored,fun _ _ => rfl⟩
  | some p =>
    obtain ⟨own,rest⟩ := careful p stored
    refine ⟨?_,fun j other => ?_⟩
    · rw [delete_trace stored,if_pos rfl]
      exact (ProcedureTrace.delete_eq_blank_iff (sound.mirrored key) stored (sound.distinct key p stored) key).mpr own
    · rw [delete_trace stored,if_neg other]
      exact (ProcedureTrace.spoil_eq_iff (sound.mirrored j) key).mpr ((executions_zero_iff j key).mpr fun q => rest j q other)

end Steps

theorem step_careful_iff (s : ProceduralMemory ρ) (r : ProceduralRequest ρ δ) (t : ProceduralMemory ρ) (sound : s.Sound)
    (stepped : s.step rules r = some t) : t.Mirrors ↔ s.Careful r := by
  cases r with
  | store key content metadata =>
    cases stepped
    exact store_careful_iff sound
  | delete key =>
    cases stepped
    exact delete_careful_iff sound
  | recordExecution key outcome now =>
    cases stepped
    exact ⟨fun _ => trivial,fun _ => recordExecution_mirrored outcome now sound.mirrored⟩

theorem step_sound (s : ProceduralMemory ρ) (r : ProceduralRequest ρ δ) (t : ProceduralMemory ρ) (sound : s.Sound)
    (careful : s.Careful r) (stepped : s.step rules r = some t) : t.Sound := by
  refine ⟨(step_careful_iff s r t sound stepped).mpr careful,?_⟩
  cases r with
  | store key content metadata =>
    cases stepped
    unfold store
    split
    · exact sound.distinct
    · next valid => exact OrderedDict.forall_set (careful (by simpa using valid)).2 sound.distinct
  | delete key =>
    cases stepped
    unfold delete
    split
    · exact sound.distinct
    · exact OrderedDict.forall_erase sound.distinct key
  | recordExecution key outcome now =>
    cases stepped
    unfold recordExecution
    split
    · exact sound.distinct
    · next q stored => exact OrderedDict.forall_set (sound.distinct key q stored) sound.distinct

/-- No request is refused. -/
theorem step_enabled (rules : ProceduralRules ρ δ) (s : ProceduralMemory ρ) (r : ProceduralRequest ρ δ) :
    ∃ t, s.step rules r = some t := by
  cases r with
  | store key content metadata => exact ⟨_,rfl⟩
  | delete key => exact ⟨_,rfl⟩
  | recordExecution key outcome now => exact ⟨_,rfl⟩

theorem empty_sound : ({} : ProceduralMemory ρ).Sound where
  mirrored k := ProcedureTrace.blank_mirrored
  distinct k p stored := by cases stored

/-- All along a sequence of requests everything recorded refers to the stored procedures, and deleting a key erases its
trace and no other, exactly if every request is careful. -/
theorem proceduralMemory_mirrors_iff (rules : ProceduralRules ρ δ) (requests : List (ProceduralRequest ρ δ))
    (s : ProceduralMemory ρ) (ran : run (step rules) requests {} = some s) :
    ((∀ first rest t, requests = first ++ rest → run (step rules) first {} = some t → t.Mirrors) ∧
      ∀ first key rest t, requests = first ++ .delete key :: rest → run (step rules) first {} = some t →
        Erased t (t.delete key) key) ↔
      Throughout (step rules) Careful requests {} := by
  have mirrors := throughout_iff_of_strong step_careful_iff step_sound ran empty_sound empty_sound.mirrored
  constructor
  · intro holds
    exact mirrors.mp holds.1
  · intro careful
    refine ⟨mirrors.mpr careful,fun first key rest t parts reached => ?_⟩
    obtain ⟨early,late⟩ := throughout_append reached (parts ▸ careful)
    exact delete_erased (run_invariant (fun s r t sound fine stepped => step_sound s r t sound fine stepped) reached
      empty_sound early) late.1

def plainRules : ProceduralRules Nat Unit where
  half := 1
  weightedAverage scores := scores.sum
  applyLearnedAdjustments content _ := content

/-- A procedure that is executed, and one that is deleted. -/
def practising : List (ProceduralRequest Nat Unit) :=
  [.store "haggle" (.dict [("name",.str "Haggle")]) { category := "negotiation",contexts := some ["offer"] },
   .recordExecution "haggle" {} 0,.store "greet" (.dict [("name",.str "Greet")]) {},.delete "greet"]

theorem practising_mirrors_iff : ∃ s, run (step plainRules) practising {} = some s ∧
    (((∀ first rest t, practising = first ++ rest → run (step plainRules) first {} = some t → t.Mirrors) ∧
      ∀ first key rest t, practising = first ++ .delete key :: rest → run (step plainRules) first {} = some t →
        Erased t (t.delete key) key) ↔
      Throughout (step plainRules) Careful practising {}) := by
  obtain ⟨s,ran⟩ := run_total (step_enabled plainRules) practising {}
  exact ⟨s,ran,proceduralMemory_mirrors_iff plainRules practising s ran⟩

/-- The executions of a deleted procedure are still counted; and deleting a procedure whose key is the name of a domain
drops the counts of all others in that domain. -/
theorem deleted_miscounted :
    (¬∀ (rules : ProceduralRules Nat Unit) (requests : List (ProceduralRequest Nat Unit)) (s : ProceduralMemory Nat),
      run (step rules) requests {} = some s → s.Mirrors) ∧
    ¬∀ (rules : ProceduralRules Nat Unit) (requests : List (ProceduralRequest Nat Unit)) (s : ProceduralMemory Nat)
      (key : String), run (step rules) requests {} = some s → Erased s (s.delete key) key := by
  constructor
  · intro claim
    have mirrors := claim plainRules
      [.store "haggle" (.dict [("name",.str "Haggle")]) {},.recordExecution "haggle" {} 0,.delete "haggle"] _ rfl
    exact absurd ((mirrors "haggle").usage "general") (by decide)
  · intro claim
    have erased := claim plainRules
      [.store "haggle" (.dict [("name",.str "Haggle")]) {},.recordExecution "haggle" {} 0,
       .store "general" (.dict [("name",.str "General")]) {}] _ "general" rfl
    have kept := congrArg (fun trace => ProcedureTrace.usage trace "general") (erased.2 "haggle" (by decide))
    exact absurd kept (by decide)

end ProceduralMemory

end IceOS
