import IceOS.ExceptRules
import IceOS.PlanReading
import Mathlib.Data.List.Forall2

/-! Which plans the decomposer reads as they are meant. -/
namespace IceOS.TaskDecomposer

open PythonRegex PythonText

variable {u : Unicode} {s : PlannedStep} {steps : List PlannedStep} {after : Nat}

/-- The steps in the order of their numbers. -/
def inOrder (steps : List PlannedStep) : List PlannedStep := steps.mergeSort fun s t => s.number ≤ t.number

/-- One task per step in their order, with its own id, its type, its description and the ids of the steps it lists. -/
def ParsesBack (u : Unicode) (steps : List PlannedStep) (after : Nat) : Prop :=
  ∃ id : Nat → String, (∀ i ∈ steps.map (·.number), ∀ j ∈ steps.map (·.number), id i = id j → i = j) ∧
    ∃ tasks, decompose u (String.ofList (planText steps after)) = some tasks ∧
      tasks.map (fun t => (t.id,t.type,t.description,t.dependencies)) =
        (inOrder steps).map fun s =>
          (id s.number,u.lower (String.ofList s.type),String.ofList s.description,s.dependencies.map id)

/-- No part of the text reads `DEPENDS ON:`. -/
def Silent (cs : List Char) : Prop := ∀ rest, rest <:+ cs → Regex.behind ignoreCase dependsOn rest = none

/-- A step without dependencies, with a description that speaks of none behind its first character, and with numbers
that `int` reads. -/
structure PlannedStep.Readable (u : Unicode) (s : PlannedStep) : Prop where
  independent : s.dependencies = []
  silent : Silent s.description.tail
  number : (digits s.number).length ≤ maxStrDigits
  count : u.lower (String.ofList s.type) = "loop" →
    ∀ text, firstGroup maxPattern (String.ofList s.description) = some text → text.length ≤ maxStrDigits

/-! ### Counts and ids -/

/-- The count in front of `times` or `iterations`. -/
theorem count_decimal {description text : String} (found : firstGroup maxPattern description = some text) :
    text.toList ≠ [] ∧ ∀ c ∈ text.toList, (digit? c).isSome = true := by
  obtain ⟨caps,first,textual⟩ := Option.bind_eq_some_iff.mp found
  obtain ⟨here,rest,-,place⟩ := Regex.findIter_place (List.mem_of_head? first)
  rw [Regex.matchAt,maxPattern,Regex.run_ofList_cons] at place
  obtain ⟨pre,behind,nonempty,decimals,place⟩ := Regex.run_group_took place
  obtain ⟨-,last,more,-,place⟩ := Regex.run_goes_on place
  obtain ⟨rfl,-⟩ := Prod.mk.inj (Option.some.inj place)
  obtain rfl : String.ofList pre = text := by simpa [textOf] using textual
  exact ⟨by simpa using nonempty,by simpa [isDecimal] using decimals⟩

theorem extractConfig_isSome (type description : String) : (extractConfig u type description).isSome = true ↔
    (type = "loop" → ∀ text, firstGroup maxPattern description = some text → text.length ≤ maxStrDigits) := by
  unfold extractConfig
  split
  · simp
  · simp
  · simp
  · dsimp only
    split
    · next missed => simp [missed]
    · next text found =>
      have ⟨nonempty,decimals⟩ := count_decimal found
      obtain ⟨n,read⟩ := Option.isSome_iff_exists.mp (digits?_isSome decimals (.inr nonempty) 0)
      have whole := int?_decimals decimals nonempty
      rw [String.ofList_toList,read,String.length_toList] at whole
      rw [Option.isSome_map,whole,found]
      by_cases long : maxStrDigits < text.length
      · simp [long]
      · simpa [if_neg long] using long
  · next other => exact iff_of_true rfl fun loop => absurd loop other

/-- The number behind the last underscore. -/
theorem behind_underscore {x y d e : List Char} (same : x ++ '_' :: d = y ++ '_' :: e) (left : '_' ∉ d) (right : '_' ∉ e) :
    d = e := by
  obtain ⟨more,-,split⟩ | ⟨more,-,split⟩ := List.append_eq_append_iff.mp same
  · cases more with
    | nil => exact (List.cons.inj split).2
    | cons c more =>
      obtain ⟨-,rfl⟩ := List.cons.inj split
      exact absurd (by simp) left
  · cases more with
    | nil => exact (List.cons.inj split).2.symm
    | cons c more =>
      obtain ⟨-,rfl⟩ := List.cons.inj split
      exact absurd (by simp) right

/-- Ids of different steps are different. -/
theorem generateNodeId_inj {first second : String} {m n : Nat}
    (same : generateNodeId u first m = generateNodeId u second n) : m = n := by
  have text (k : Nat) : (toString (k : Int)).toList = Nat.toDigits 10 k := Nat.toList_repr
  have clear (k : Nat) : '_' ∉ Nat.toDigits 10 k := fun member => by
    cases Nat.isDigit_of_mem_toDigits (by decide) (by decide) member
  have lists := congrArg String.toList same
  simp only [generateNodeId,String.toList_append,List.append_assoc,text] at lists
  have digits : Nat.toDigits 10 m = Nat.toDigits 10 n := behind_underscore lists (clear m) (clear n)
  calc m = Nat.ofDigitChars 10 (Nat.toDigits 10 m) 0 := Nat.ofDigitChars_ten_toDigits.symm
    _ = Nat.ofDigitChars 10 (Nat.toDigits 10 n) 0 := by rw [digits]
    _ = n := Nat.ofDigitChars_ten_toDigits

/-! ### One step -/

theorem firstDepends_eq_none {cs : List Char} : (firstDepends cs).2 = none ↔ Silent cs := by
  induction cs with
  | nil =>
    refine iff_of_true rfl fun rest inside => ?_
    rw [List.suffix_nil.mp inside]
    rfl
  | cons c cs ih =>
    rw [Silent,firstDepends]
    constructor
    · intro plain rest inside
      split at plain
      · cases plain
      · next missed =>
        obtain rfl | inside := List.suffix_cons_iff.mp inside
        · exact missed
        · exact ih.mp plain rest inside
    · intro silent
      rw [silent _ List.suffix_rfl]
      exact ih.mpr fun rest inside => silent rest (inside.trans (List.suffix_cons c cs))

theorem stepInfo_captured (u : Unicode) (s : PlannedStep) :
    stepInfo u (captured s) = (int? (String.ofList (digits s.number))).bind fun step =>
      (dependencySteps u (textOf (captured s) 4)).map fun deps =>
        ⟨step,u.lower (String.ofList s.type),
          strip (String.ofList (s.description.head?.toList ++ (firstDepends s.description.tail).1)),deps⟩ := by
  have one : textOf (captured s) 1 = some (String.ofList (digits s.number)) := rfl
  have two : textOf (captured s) 2 = some (String.ofList s.type) := rfl
  have three : textOf (captured s) 3 =
      some (String.ofList (s.description.head?.toList ++ (firstDepends s.description.tail).1)) := rfl
  simp only [stepInfo,one,two,three,Option.getD_some,Option.bind_eq_bind]
  cases int? (String.ofList (digits s.number)) <;> cases dependencySteps u (textOf (captured s) 4) <;> rfl

/-- What is read of a step without dependencies. -/
def PlannedStep.info (u : Unicode) (s : PlannedStep) : StepInfo :=
  ⟨s.number,u.lower (String.ofList s.type),String.ofList s.description,[]⟩

/-- The task of a step without dependencies. -/
def PlannedStep.task (u : Unicode) (s : PlannedStep) : Task :=
  ⟨generateNodeId u (String.ofList s.description) s.number,u.lower (String.ofList s.type),String.ofList s.description,
    (extractConfig u (u.lower (String.ofList s.type)) (String.ofList s.description)).getD [],[]⟩

theorem int?_digits (n : Nat) :
    int? (String.ofList (digits n)) = if maxStrDigits < (digits n).length then none else some (n : Int) := int?_toDigits n

theorem number_of_stepInfo {info : StepInfo} (read : stepInfo u (captured s) = some info) :
    info.step = s.number ∧ (digits s.number).length ≤ maxStrDigits ∧ info.description =
      strip (String.ofList (s.description.head?.toList ++ (firstDepends s.description.tail).1)) := by
  obtain ⟨step,number,read⟩ := Option.bind_eq_some_iff.mp ((stepInfo_captured u s).symm.trans read)
  obtain ⟨deps,-,rfl⟩ := Option.map_eq_some_iff.mp read
  rw [int?_digits] at number
  split at number
  · cases number
  · next short => exact ⟨(Option.some.inj number).symm,not_lt.mp short,rfl⟩

theorem stepInfo_silent (formed : s.WellFormed u) (silent : Silent s.description.tail)
    (short : (digits s.number).length ≤ maxStrDigits) : stepInfo u (captured s) = some (s.info u) := by
  have plain := firstDepends_eq_none.mpr silent
  have four : textOf (captured s) 4 = none := by
    simp only [captured,plain]
    rfl
  have whole : s.description.head?.toList ++ s.description.tail = s.description := by
    cases s.description <;> rfl
  rw [stepInfo_captured,four,firstDepends_none plain,whole,strip,String.toList_ofList,formed.stripped,int?_digits,
    if_neg (not_lt.mpr short)]
  rfl

/-- A description that is read whole speaks of no dependencies. -/
theorem silent_of_whole (formed : s.WellFormed u)
    (whole : strip (String.ofList (s.description.head?.toList ++ (firstDepends s.description.tail).1)) =
      String.ofList s.description) : Silent s.description.tail := by
  rw [← firstDepends_eq_none]
  obtain ⟨first,description,text⟩ := List.exists_cons_of_ne_nil formed.described
  obtain ⟨-,parts,found⟩ := firstDepends_spec s.description.tail
  by_contra mentions
  obtain ⟨after,mentioned⟩ := Option.ne_none_iff_exists'.mp mentions
  rw [mentioned] at found
  have some : s.description.tail.drop (firstDepends s.description.tail).1.length ≠ [] := by
    intro empty
    rw [empty] at found
    cases found
  have lengths := congrArg (·.toList.length) whole
  have lost := congrArg List.length parts
  have shorter := (stripChars_inside (s.description.head?.toList ++ (firstDepends s.description.tail).1)).length_le
  have more := List.length_pos_of_ne_nil some
  simp only [strip,String.toList_ofList] at lengths
  rw [List.length_append] at lost shorter
  simp only [text,List.head?_cons,Option.toList_some,List.length_cons,List.length_nil,List.tail_cons] at *
  omega

/-! ### Lists that are made element by element -/

section

variable {α β γ : Type} {l : List α} {out : List β}

theorem related_trans {R : α → β → Prop} {S : β → γ → Prop} {last : List γ} (first : List.Forall₂ R l out)
    (second : List.Forall₂ S out last) : List.Forall₂ (fun a c => ∃ b, R a b ∧ S b c) l last := by
  induction first generalizing last with
  | nil =>
    cases second
    exact .nil
  | cons here _ ih =>
    obtain ⟨c,rest,there,later,rfl⟩ := List.forall₂_cons_left_iff.mp second
    exact .cons ⟨_,here,there⟩ (ih later)

/-- Two lists that agree have elements that agree. -/
theorem agree_of_map {R : α → β → Prop} {f : β → γ} {g : α → γ} (related : List.Forall₂ R l out)
    (same : out.map f = l.map g) : ∀ a ∈ l, ∃ b, R a b ∧ f b = g a := by
  induction related with
  | nil => simp
  | cons first _ ih =>
    obtain ⟨here,later⟩ := List.cons.inj same
    exact List.forall_mem_cons.mpr ⟨⟨_,first,here⟩,ih later⟩

end

/-! ### The order of the steps -/

/-- What was read of the steps, by number. -/
def table (infos : List StepInfo) : OrderedDict Int StepInfo := .ofList (infos.map fun info => (info.step,info))

theorem inOrder_mem : s ∈ inOrder steps ↔ s ∈ steps := List.mem_mergeSort

theorem numbers_read {infos : List StepInfo}
    (read : List.Forall₂ (fun s info => stepInfo u (captured s) = some info) steps infos) :
    infos.map (·.step) = steps.map fun s => (s.number : Int) := by
  induction read with
  | nil => rfl
  | cons first _ ih => rw [List.map_cons,List.map_cons,ih,(number_of_stepInfo first).1]

/-- The steps are fetched in order. -/
theorem fetched_inOrder {infos : List StepInfo} (distinct : (steps.map (·.number)).Nodup)
    (read : List.Forall₂ (fun s info => stepInfo u (captured s) = some info) steps infos) :
    List.Forall₂ (fun s info => stepInfo u (captured s) = some info) (inOrder steps)
      (((table infos).keys.mergeSort (· ≤ ·)).filterMap (table infos).get?) := by
  have numbers := numbers_read read
  have entries : (table infos).items = infos.map fun info => (info.step,info) := by
    refine OrderedDict.ofList_items _ ?_
    rw [List.map_map,show Prod.fst ∘ (fun info : StepInfo => (info.step,info)) = (·.step) from rfl,numbers]
    have casts : (steps.map fun s => (s.number : Int)) = (steps.map (·.number)).map Int.ofNat := by
      rw [List.map_map]
      rfl
    rw [casts]
    exact distinct.map fun i j same => Int.ofNat.inj same
  have keys : (table infos).keys = steps.map fun s => (s.number : Int) := by
    rw [OrderedDict.keys,entries,List.map_map,← numbers]
    rfl
  have order : (table infos).keys.mergeSort (· ≤ ·) = (inOrder steps).map fun s => (s.number : Int) := by
    rw [keys,inOrder]
    exact (List.map_mergeSort fun s _ t _ => by simp).symm
  have fetched : ∀ l : List PlannedStep, (∀ s ∈ l, s ∈ steps) →
      List.Forall₂ (fun s info => stepInfo u (captured s) = some info) l
        ((l.map fun s => (s.number : Int)).filterMap (table infos).get?) := by
    intro l
    induction l with
    | nil => exact fun _ => .nil
    | cons s l ih =>
      intro inside
      obtain ⟨here,later⟩ := List.forall_mem_cons.mp inside
      obtain ⟨info,listed,own⟩ := ExceptRules.related_mem read s here
      have found : (table infos).get? s.number = some info := by
        rw [OrderedDict.get?_eq_some,entries,← (number_of_stepInfo own).1]
        exact List.mem_map.mpr ⟨info,listed,rfl⟩
      rw [List.map_cons,List.filterMap_cons_some found]
      exact .cons own (ih later)
  rw [order]
  exact fetched _ fun s member => inOrder_mem.mp member

/-- The tasks of a plan. -/
theorem decompose_plan (formed : WellFormed u steps) {tasks : List Task} :
    decompose u (String.ofList (planText steps after)) = some tasks ↔
      ∃ infos, List.Forall₂ (fun s info => stepInfo u (captured s) = some info) steps infos ∧
        (((table infos).keys.mergeSort (· ≤ ·)).filterMap (table infos).get?).mapM (taskOf u (table infos)) = some tasks := by
  rw [decompose,String.toList_ofList,findIter_planText formed.each]
  simp only [Option.bind_eq_bind,Option.bind_eq_some_iff,ExceptRules.mapM_eq_some (α := Captures),List.forall₂_map_left_iff]
  rfl

theorem taskOf_eq (known : OrderedDict Int StepInfo) (info : StepInfo) :
    taskOf u known info = (extractConfig u info.type info.description).map fun config =>
      ⟨generateNodeId u info.description info.step,info.type,info.description,config,
        info.dependencySteps.filterMap fun dep =>
          (known.get? dep).map fun other => generateNodeId u other.description dep⟩ := by
  rw [taskOf]
  cases extractConfig u info.type info.description <;> rfl

theorem taskOf_info (readable : s.Readable u) (known : OrderedDict Int StepInfo) :
    taskOf u known (s.info u) = some (s.task u) := by
  obtain ⟨config,configured⟩ := Option.isSome_iff_exists.mp ((extractConfig_isSome _ _).mpr readable.count)
  rw [taskOf_eq,PlannedStep.task,configured]
  simp only [PlannedStep.info,configured]
  rfl

theorem decompose_readable (formed : WellFormed u steps) (readable : ∀ s ∈ steps, s.Readable u) :
    decompose u (String.ofList (planText steps after)) = some ((inOrder steps).map (·.task u)) := by
  have each (s : PlannedStep) (member : s ∈ steps) : stepInfo u (captured s) = some (s.info u) :=
    stepInfo_silent (formed.each s member) (readable s member).silent (readable s member).number
  have read := ExceptRules.mapM_eq_some.mp (ExceptRules.mapM_of_forall each)
  have fetched := ExceptRules.mapM_eq_some.mpr (fetched_inOrder formed.distinct read)
  rw [ExceptRules.mapM_of_forall fun s member => each s (inOrder_mem.mp member)] at fetched
  refine (decompose_plan formed).mpr ⟨_,read,?_⟩
  rw [← Option.some.inj fetched,ExceptRules.mapM_eq_some,List.forall₂_map_left_iff,List.forall₂_map_right_iff,List.forall₂_same]
  exact fun s member => taskOf_info (readable s (inOrder_mem.mp member)) _

/-- The id of a step, by its number. -/
def idOf (u : Unicode) (steps : List PlannedStep) (number : Nat) : String :=
  generateNodeId u (((steps.find? (·.number = number)).map fun s => String.ofList s.description).getD "") number

theorem idOf_number (distinct : (steps.map (·.number)).Nodup) (member : s ∈ steps) :
    idOf u steps s.number = generateNodeId u (String.ofList s.description) s.number := by
  cases found : steps.find? (·.number = s.number) with
  | none => simpa using List.find?_eq_none.mp found s member
  | some t =>
    have same : t.number = s.number := by simpa using List.find?_some found
    obtain rfl := List.inj_on_of_nodup_map distinct (List.mem_of_find?_eq_some found) member same
    rw [idOf,found]
    rfl

theorem ParsesBack.readable (formed : WellFormed u steps) (parsed : ParsesBack u steps after) :
    ∀ s ∈ steps, s.Readable u := by
  intro s member
  obtain ⟨id,-,tasks,decomposed,same⟩ := parsed
  obtain ⟨infos,read,made⟩ := (decompose_plan formed).mp decomposed
  have related := related_trans (fetched_inOrder formed.distinct read) (ExceptRules.mapM_eq_some.mp made)
  obtain ⟨task,⟨info,own,made⟩,agrees⟩ := agree_of_map related same s (inOrder_mem.mpr member)
  obtain ⟨_,short,description⟩ := number_of_stepInfo own
  rw [taskOf_eq] at made
  obtain ⟨config,configured,rfl⟩ := Option.map_eq_some_iff.mp made
  simp only [Prod.mk.injEq] at agrees
  obtain ⟨-,-,whole,deps⟩ := agrees
  have silent : Silent s.description.tail := silent_of_whole (formed.each s member) (description.symm.trans whole)
  obtain rfl := Option.some.inj ((stepInfo_silent (formed.each s member) silent short).symm.trans own)
  refine ⟨?_,silent,short,?_⟩
  · exact List.map_eq_nil_iff.mp deps.symm
  · exact (extractConfig_isSome _ _).mp (Option.isSome_iff_exists.mpr ⟨config,configured⟩)

/-- A plan is read as it is meant exactly if no step depends on another and no description speaks of dependencies. -/
theorem parsesBack_iff (formed : WellFormed u steps) : ParsesBack u steps after ↔ ∀ s ∈ steps, s.Readable u := by
  refine ⟨fun parsed => parsed.readable formed,fun readable => ?_⟩
  refine ⟨idOf u steps,fun i _ j _ same => generateNodeId_inj same,_,decompose_readable formed readable,?_⟩
  rw [List.map_map]
  refine List.map_congr_left fun s member => ?_
  have planned := inOrder_mem.mp member
  rw [idOf_number formed.distinct planned,(readable s planned).independent]
  rfl

/-! ### A step that depends on another -/

def asciiLetters : Unicode where
  isWord c := c.isAlphanum || c = '_'
  lower text := String.ofList (text.toList.map Char.toLower)
  bracket := rfl

def readStep : PlannedStep := ⟨1,"tool".toList,"Read inventory data from CSV file".toList,[],0,1⟩

def calculateStep : PlannedStep := ⟨2,"code".toList,"Calculate reorder quantities".toList,[1],1,1⟩

theorem readStep_formed : readStep.WellFormed asciiLetters :=
  ⟨by decide,List.all_eq_true.mp (by decide),by decide,List.all_eq_true.mp (by decide),by decide⟩

theorem calculateStep_formed : calculateStep.WellFormed asciiLetters :=
  ⟨by decide,List.all_eq_true.mp (by decide),by decide,List.all_eq_true.mp (by decide),by decide⟩

theorem readStep_parses : ParsesBack asciiLetters [readStep] 1 := by
  have silent : Silent readStep.description.tail := firstDepends_eq_none.mp (by decide)
  refine (parsesBack_iff ⟨?_,by decide,by decide⟩).mpr ?_
  · simpa using readStep_formed
  · simpa using (⟨rfl,silent,by decide,fun loop => absurd loop (by decide)⟩ : readStep.Readable asciiLetters)

/-- The second step loses its dependency. -/
theorem calculateStep_not_parsed : ¬ParsesBack asciiLetters [readStep,calculateStep] 0 := by
  intro parsed
  have formed : WellFormed asciiLetters [readStep,calculateStep] :=
    ⟨by simpa using ⟨readStep_formed,calculateStep_formed⟩,by decide,by decide⟩
  have independent := (parsed.readable formed calculateStep (by simp)).independent
  cases independent

end IceOS.TaskDecomposer
