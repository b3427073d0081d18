import IceOS.TaskDecomposer

/-! What the decomposer reads of a plan: of each step its line, up to where the description speaks of dependencies. -/
namespace IceOS.TaskDecomposer

open PythonRegex PythonText

/-! ### One step -/

/-- The description up to the first `DEPENDS ON:`, and what follows that. -/
def firstDepends : List Char → List Char × Option (List Char)
  | [] => ([],none)
  | c :: cs =>
    match Regex.behind ignoreCase dependsOn (c :: cs) with
    | some rest => ([],some rest)
    | none => (c :: (firstDepends cs).1,(firstDepends cs).2)

/-- The last parts of the expression: the dependencies on the same line, and its end. -/
def lineRest : Rest := (Regex.optional dependsGroup).run (Regex.lineEnd.run fun rest caps => some (caps,rest))

theorem forall_of_any {p : Char → Bool} {cs : List Char} (none : cs.any p = false) : ∀ c ∈ cs, p c = false := by
  simpa using none

theorem dependsOn_newline : ∀ c ∈ dependsOn, ignoreCase c '\n' = false := forall_of_any (by decide)

theorem atLineEnd_cons {c : Char} (other : notNewline c = true) (cs : List Char) : atLineEnd (c :: cs) = false := by
  simpa [atLineEnd,notNewline] using other

section

variable {cs rest y : List Char} {caps : Captures} {first : Char}

theorem lineRest_plain (plain : Regex.behind ignoreCase dependsOn cs = none) :
    lineRest cs caps = if atLineEnd cs then some (caps,cs) else none := by
  have missed : dependsGroup.run (Regex.lineEnd.run fun rest caps => some (caps,rest)) cs caps = none := by
    rw [dependsGroup,Regex.run_ofList_cons,Regex.run_literal,plain]
    rfl
  rw [lineRest,Regex.run_optional,missed,Option.none_or]
  rfl

theorem lineRest_depends {spaces : List Char} (found : Regex.behind ignoreCase dependsOn cs = some (spaces ++ (first :: y ++ rest)))
    (blank : ∀ c ∈ spaces, isSpace c = true) (visible : isSpace first = false) (line : ∀ c ∈ first :: y, notNewline c = true)
    (ends : atLineEnd rest = true) : lineRest cs caps = some (caps ++ [(4,first :: y)],rest) := by
  have group : dependsGroup.run (Regex.lineEnd.run fun rest caps => some (caps,rest)) cs caps =
      some (caps ++ [(4,first :: y)],rest) := by
    rw [dependsGroup,Regex.run_ofList_cons,Regex.run_literal,found,Option.bind_some,Regex.run_ofList_cons]
    refine Regex.run_many blank (by simpa using visible) ?_
    rw [Regex.run_ofList_cons]
    refine Regex.run_group_lazy line (fun left right caps parts nonempty => ?_) ?_
    · obtain ⟨c,right,rfl⟩ := List.exists_cons_of_ne_nil nonempty
      have inside : c ∈ first :: y := by simp [parts]
      simp [Regex.run,atLineEnd_cons (line c inside)]
    · simp [Regex.run,ends]
  rw [lineRest,Regex.run_optional,group,Option.some_or]

end

/-- What the first `DEPENDS ON:` parts. -/
theorem firstDepends_spec (cs : List Char) :
    (∀ left right, (firstDepends cs).1 = left ++ right → right ≠ [] →
      Regex.behind ignoreCase dependsOn (right ++ cs.drop (firstDepends cs).1.length) = none) ∧
    (firstDepends cs).1 ++ cs.drop (firstDepends cs).1.length = cs ∧
    Regex.behind ignoreCase dependsOn (cs.drop (firstDepends cs).1.length) = (firstDepends cs).2 := by
  induction cs with
  | nil => exact ⟨by simp [firstDepends],rfl,rfl⟩
  | cons c cs ih =>
    obtain ⟨before,whole,here⟩ := ih
    cases found : Regex.behind ignoreCase dependsOn (c :: cs) with
    | some rest => simp [firstDepends,found]
    | none =>
      have parts : firstDepends (c :: cs) = (c :: (firstDepends cs).1,(firstDepends cs).2) := by
        simp only [firstDepends,found]
      rw [parts]
      refine ⟨fun left right split nonempty => ?_,?_,here⟩
      · cases left with
        | nil =>
          have all : right = c :: (firstDepends cs).1 := split.symm
          rw [all]
          simpa [whole] using found
        | cons d left =>
          have ⟨_,later⟩ := List.cons.inj split
          exact before left right later nonempty
      · simp [whole]

/-- Without a `DEPENDS ON:` nothing is left. -/
theorem firstDepends_none {cs : List Char} (plain : (firstDepends cs).2 = none) : (firstDepends cs).1 = cs := by
  induction cs with
  | nil => rfl
  | cons c cs ih =>
    rw [firstDepends] at plain ⊢
    split at plain
    · cases plain
    · exact congrArg (c :: ·) (ih plain)

theorem behind_suffix {same : Char → Char → Bool} {word cs rest : List Char} (found : Regex.behind same word cs = some rest) :
    rest <:+ cs := by
  induction word generalizing cs with
  | nil => exact Option.some.inj found ▸ List.suffix_rfl
  | cons c word ih =>
    cases cs with
    | nil => cases found
    | cons d cs =>
      rw [Regex.behind] at found
      split at found
      · exact (ih found).trans (List.suffix_cons d cs)
      · cases found

/-- A text that ends visibly has a first visible character. -/
theorem spaces_before {cs : List Char} (nonempty : cs ≠ []) (last : ∀ c ∈ cs.getLast?, isSpace c = false) :
    ∃ spaces first more, cs = spaces ++ first :: more ∧ cs.dropWhile isSpace = first :: more ∧
      (∀ c ∈ spaces, isSpace c = true) ∧ isSpace first = false := by
  cases cut : cs.dropWhile isSpace with
  | nil =>
    have blank := last _ (List.getLast?_eq_some_getLast nonempty)
    rw [List.dropWhile_eq_nil_iff.mp cut _ (List.getLast_mem nonempty)] at blank
    cases blank
  | cons first more =>
    refine ⟨cs.takeWhile isSpace,first,more,?_,rfl,fun c => List.mem_takeWhile_imp,?_⟩
    · rw [← cut,List.takeWhile_append_dropWhile]
    · have visible := List.head_dropWhile_not isSpace (l := cs) (by simp [cut])
      simpa [cut] using visible

/-- The texts of a step's groups. -/
def captured (s : PlannedStep) : Captures :=
  let parts := firstDepends s.description.tail
  [(1,digits s.number),(2,s.type),(3,s.description.head?.toList ++ parts.1)] ++
    match parts.2 with
    | none => []
    | some [] => [(4,dependsLine s)]
    | some rest => [(4,rest.dropWhile isSpace)]

/-- What is behind the match of a step: a description that ends with `DEPENDS ON:` takes the next line with it. -/
def leftover (s : PlannedStep) (tail : List Char) : List Char :=
  match (firstDepends s.description.tail).2 with
  | some [] => tail
  | _ => '\n' :: dependsLine s ++ tail

theorem ignoreCase_refl (c : Char) : ignoreCase c c = true := by simp [ignoreCase]

theorem head_stops {p : Char → Bool} {c : Char} (stops : p c = false) (cs : List Char) : ∀ d ∈ (c :: cs).head?, p d = false := by
  simpa using stops

theorem atLineEnd_newline (cs : List Char) : atLineEnd ('\n' :: cs) = true := rfl

theorem digits_isDigit {n : Nat} {c : Char} (member : c ∈ digits n) : c.isDigit = true :=
  Nat.isDigit_of_mem_toDigits (by decide) (by decide) member

theorem mem_intercalate {separator : List Char} {texts : List (List Char)} {c : Char}
    (member : c ∈ separator.intercalate texts) : c ∈ separator ∨ ∃ text ∈ texts, c ∈ text := by
  induction texts with
  | nil => cases member
  | cons text rest ih =>
    cases rest with
    | nil =>
      rw [List.intercalate_singleton] at member
      exact .inr ⟨text,List.mem_cons_self,member⟩
    | cons second rest =>
      rw [List.intercalate_cons_cons,List.mem_append,List.mem_append] at member
      obtain (member | member) | member := member
      · exact .inr ⟨text,List.mem_cons_self,member⟩
      · exact .inl member
      · obtain separated | ⟨text,inside,member⟩ := ih member
        · exact .inl separated
        · exact .inr ⟨text,List.mem_cons_of_mem _ inside,member⟩

theorem notNewline_of_isDigit {c : Char} (digit : c.isDigit = true) : notNewline c = true := by
  have other : c ≠ '\n' := by
    rintro rfl
    cases digit
  simp [notNewline,other]

theorem listing_line (s : PlannedStep) : ∀ c ∈ listing s, notNewline c = true := by
  intro c member
  rw [listing] at member
  split at member
  · exact List.all_eq_true.mp (by decide : "none".toList.all notNewline = true) c member
  · obtain separator | ⟨number,listed,member⟩ := mem_intercalate member
    · simp only [List.mem_cons,List.mem_replicate] at separator
      obtain rfl | ⟨-,rfl⟩ := separator <;> rfl
    · obtain ⟨dep,-,rfl⟩ := List.mem_map.mp listed
      exact notNewline_of_isDigit (digits_isDigit member)

theorem dependsLine_line (s : PlannedStep) : ∀ c ∈ dependsLine s, notNewline c = true := by
  intro c member
  rw [dependsLine,List.mem_append,List.mem_cons] at member
  obtain before | rfl | after := member
  · exact List.all_eq_true.mp (by decide : dependsOn.all notNewline = true) c before
  · rfl
  · exact listing_line s c after

section

variable {u : Unicode} {s : PlannedStep} {tail : List Char}

/-- The description's groups, behind its first character. -/
theorem description_run (formed : s.WellFormed u) (ends : atLineEnd tail = true) (caps : Captures) :
    (Regex.group 3 (.atLeastOne notNewline true)).run lineRest (s.description ++ ('\n' :: dependsLine s ++ tail)) caps =
      some (caps ++ (captured s).drop 2,leftover s tail) := by
  have last := (stripped_ends formed.stripped).2
  have line := formed.line
  obtain ⟨first,description,whole⟩ := List.exists_cons_of_ne_nil formed.described
  obtain ⟨before,parts,found⟩ := firstDepends_spec description
  have without : (firstDepends description).2 = none → (firstDepends description).1 = description := firstDepends_none
  simp only [captured,leftover,whole,List.tail_cons,List.head?_cons,Option.toList_some,List.drop_succ_cons,
    List.drop_zero,List.cons_append,List.nil_append]
  rw [whole] at last line
  rw [← parts] at last line
  generalize firstDepends description = cut at before parts found last line without ⊢
  obtain ⟨start,deps⟩ := cut
  generalize description.drop start.length = rest at before parts found last line
  have text : first :: (description ++ '\n' :: (dependsLine s ++ tail)) =
      first :: start ++ (rest ++ '\n' :: (dependsLine s ++ tail)) := by simp [← parts]
  have behind_line (cs : List Char) : Regex.behind ignoreCase dependsOn (cs ++ '\n' :: (dependsLine s ++ tail)) =
      (Regex.behind ignoreCase dependsOn cs).map (· ++ '\n' :: (dependsLine s ++ tail)) :=
    Regex.behind_append dependsOn_newline (by decide) cs _
  rw [text]
  refine Regex.run_group_lazy (fun c member => line c ?_) (fun left right caps split nonempty => ?_) ?_
  · simp only [List.mem_cons,List.mem_append] at member ⊢
    tauto
  · obtain ⟨c,right,rfl⟩ := List.exists_cons_of_ne_nil nonempty
    have other : notNewline c = true := line c (by simp [show start = left ++ c :: right from split])
    rw [lineRest_plain]
    · simp [atLineEnd_cons other]
    · rw [← List.append_assoc,behind_line,before left _ split nonempty]
      rfl
  · cases deps with
    | none =>
      have all : start = description := without rfl
      have ended : rest = [] := List.append_cancel_left (parts.trans (all.symm.trans (List.append_nil start).symm))
      rw [ended,List.nil_append,lineRest_plain]
      · simp [atLineEnd_newline]
      · rw [← List.nil_append ('\n' :: _),behind_line]
        rfl
    | some after =>
      -- the description goes on to the end of the line, or the next line is taken with it
      have behind := (behind_line rest).trans (congrArg _ found)
      cases after with
      | nil =>
        have spaced : Regex.behind ignoreCase dependsOn (rest ++ '\n' :: (dependsLine s ++ tail)) =
            some (['\n'] ++ ('D' :: (dependsLine s).tail ++ tail)) := behind
        rw [lineRest_depends spaced (List.forall_mem_singleton.mpr rfl) (by decide) (dependsLine_line s) ends,List.append_assoc]
        rfl
      | cons c after =>
        have inside : c :: after <:+ rest := behind_suffix found
        have final : ∀ d ∈ (c :: after).getLast?, isSpace d = false := by
          intro d member
          obtain ⟨pre,rfl⟩ := inside
          refine last d ?_
          rw [← List.append_assoc,← List.cons_append,List.getLast?_append_of_ne_nil _ (by simp)]
          exact member
        obtain ⟨spaces,first,more,split,cut,blank,visible⟩ := spaces_before (by simp) final
        rw [split] at behind inside
        have spaced : Regex.behind ignoreCase dependsOn (rest ++ '\n' :: (dependsLine s ++ tail)) =
            some (spaces ++ (first :: more ++ '\n' :: (dependsLine s ++ tail))) := by simpa using behind
        rw [lineRest_depends spaced blank visible (fun d member => line d ?_) rfl]
        · simp [cut]
        · have member := inside.subset (List.mem_append_right _ member)
          simp [member]

theorem step_match (formed : s.WellFormed u) (ends : atLineEnd tail = true) :
    (stepPattern u).matchAt (stepText s ++ tail) = some (captured s,leftover s tail) := by
  have text : stepText s ++ tail = "STEP".toList ++ ([' '] ++ (digits s.number ++ ':' :: ([' '] ++ '[' ::
      (s.type ++ ']' :: ([' '] ++ (s.description ++ ('\n' :: dependsLine s ++ tail))))))) := by
    have number : "STEP ".toList = "STEP".toList ++ [' '] := rfl
    have type : ": [".toList = [':',' ','['] := rfl
    have description : "] ".toList = [']',' '] := rfl
    unfold stepText
    rw [number,type,description]
    simp only [List.append_assoc,List.cons_append,List.nil_append]
  have visible := (stripped_ends formed.stripped).1
  rw [Regex.matchAt,stepPattern,text,Regex.run_ofList_cons,Regex.run_literal,Regex.behind_self ignoreCase_refl]
  rw [Option.bind_some,Regex.run_ofList_cons]
  obtain ⟨d,more,number⟩ := List.exists_cons_of_ne_nil (Nat.toDigits_ne_nil (n := s.number) (b := 10))
  have first : d.isDigit = true := digits_isDigit (n := s.number) (by simp [digits,number])
  refine Regex.run_atLeastOne (by simp) (List.forall_mem_singleton.mpr rfl) ?_ ?_
  · rw [digits,number]
    exact head_stops (isSpace_digit first) _
  rw [Regex.run_ofList_cons]
  refine Regex.run_group_greedy Nat.toDigits_ne_nil (fun c member => ?_) (head_stops (by decide) _) ?_
  · simp [isDecimal,digit?_ascii (digits_isDigit member)]
  rw [Regex.run_ofList_cons,Regex.run_one rfl,Regex.run_ofList_cons]
  refine Regex.run_many (List.forall_mem_singleton.mpr rfl) (head_stops (by decide) _) ?_
  rw [Regex.run_ofList_cons,Regex.run_one rfl,Regex.run_ofList_cons]
  refine Regex.run_group_greedy formed.typed formed.word (head_stops u.bracket _) ?_
  rw [Regex.run_ofList_cons,Regex.run_one rfl,Regex.run_ofList_cons]
  refine Regex.run_many (List.forall_mem_singleton.mpr rfl) (fun c member => visible c ?_) (description_run formed ends _)
  rwa [List.head?_append_of_ne_nil _ formed.described] at member

/-! ### A whole plan -/

theorem step_missed {c : Char} (other : ignoreCase 'S' c = false) (cs : List Char) :
    (stepPattern u).matchAt (c :: cs) = none := by
  have missed : Regex.behind ignoreCase "STEP".toList (c :: cs) = none := by
    rw [show "STEP".toList = 'S' :: "TEP".toList from rfl,Regex.behind,other]
    rfl
  rw [Regex.matchAt,stepPattern,Regex.run_ofList_cons,Regex.run_literal,missed]
  rfl

theorem findIter_clear {pre : List Char} (clear : ∀ c ∈ pre, ignoreCase 'S' c = false) (rest : List Char) :
    (stepPattern u).findIter 0 (pre ++ rest) = (stepPattern u).findIter 0 rest := by
  induction pre with
  | nil => rfl
  | cons c pre ih =>
    have ⟨here,later⟩ := List.forall_mem_cons.mp clear
    rw [List.cons_append,Regex.findIter_missed (step_missed here _),ih later]

theorem leftover_behind (s : PlannedStep) (tail : List Char) :
    ∃ pre ≠ [], stepText s ++ tail = pre ++ leftover s tail := by
  unfold leftover stepText
  split
  · exact ⟨_,by simp,rfl⟩
  · refine ⟨"STEP ".toList ++ digits s.number ++ ": [".toList ++ s.type ++ "] ".toList ++ s.description,by simp,?_⟩
    simp only [List.append_assoc,List.cons_append]

theorem digit_clear {c : Char} (digit : c.isDigit = true) : ignoreCase 'S' c = false := by
  have ⟨low,high⟩ := digit_code digit
  have value : (c.toNat - 48).digitChar = c := by
    apply Char.toNat_inj.mp
    rw [Nat.toNat_digitChar_of_lt_ten (by omega)]
    omega
  rw [← value]
  exact (by decide : ∀ n < 10, ignoreCase 'S' n.digitChar = false) _ (by omega)

theorem listing_clear (s : PlannedStep) : ∀ c ∈ listing s, ignoreCase 'S' c = false := by
  intro c member
  rw [listing] at member
  split at member
  · exact forall_of_any (by decide : "none".toList.any (ignoreCase 'S') = false) c member
  · obtain separator | ⟨number,listed,member⟩ := mem_intercalate member
    · simp only [List.mem_cons,List.mem_replicate] at separator
      obtain rfl | ⟨-,rfl⟩ := separator <;> rfl
    · obtain ⟨dep,-,rfl⟩ := List.mem_map.mp listed
      exact digit_clear (digits_isDigit member)

/-- The line of the dependencies is no step. -/
theorem findIter_dependsLine (s : PlannedStep) (rest : List Char) :
    (stepPattern u).findIter 0 ('\n' :: dependsLine s ++ rest) = (stepPattern u).findIter 0 rest := by
  have text : '\n' :: dependsLine s ++ rest = "\nDEPEND".toList ++ 'S' :: (" ON: ".toList ++ (listing s ++ rest)) := by
    simp only [dependsLine,List.cons_append,List.append_assoc]
    rfl
  have missed : (stepPattern u).matchAt ('S' :: (" ON: ".toList ++ (listing s ++ rest))) = none := by
    have missed : Regex.behind ignoreCase "STEP".toList ('S' :: (" ON: ".toList ++ (listing s ++ rest))) = none := rfl
    rw [Regex.matchAt,stepPattern,Regex.run_ofList_cons,Regex.run_literal,missed]
    rfl
  rw [text,findIter_clear (forall_of_any (by decide)),Regex.findIter_missed missed,
    findIter_clear (forall_of_any (by decide)),findIter_clear (listing_clear s)]

/-- What follows a step, and the plan before it. -/
theorem planText_cons (s : PlannedStep) (rest : List PlannedStep) (after : Nat) :
    ∃ tail, planText (s :: rest) after = List.replicate s.before '\n' ++ (stepText s ++ tail) ∧ atLineEnd tail = true ∧
      (tail = '\n' :: planText rest after ∨ rest = [] ∧ tail = planText rest after) := by
  cases rest with
  | nil =>
    refine ⟨List.replicate after '\n',?_,?_,.inr ⟨rfl,?_⟩⟩
    · simp [planText]
    · cases after <;> rfl
    · simp [planText]
  | cons second rest =>
    refine ⟨'\n' :: planText (second :: rest) after,?_,rfl,.inl rfl⟩
    simp [planText,List.intercalate_cons_cons]

/-- The steps of a plan are found, one after the other. -/
theorem findIter_planText {steps : List PlannedStep} (formed : ∀ s ∈ steps, s.WellFormed u) (after : Nat) :
    (stepPattern u).findIter 0 (planText steps after) = steps.map captured := by
  have newline : ignoreCase 'S' '\n' = false := by decide
  have blank (n : Nat) : ∀ c ∈ List.replicate n '\n', ignoreCase 'S' c = false := fun c member => by
    rw [List.eq_of_mem_replicate member]
    exact newline
  induction steps with
  | nil =>
    have text : planText [] after = List.replicate after '\n' ++ [] := by simp [planText]
    rw [text,findIter_clear (blank after)]
    rfl
  | cons s rest ih =>
    obtain ⟨tail,text,ends,follows⟩ := planText_cons s rest after
    have ⟨here,later⟩ := List.forall_mem_cons.mp formed
    have behind : (stepPattern u).findIter 0 tail = rest.map captured := by
      obtain rfl | ⟨-,rfl⟩ := follows
      · rw [Regex.findIter_missed (step_missed newline _),ih later]
      · exact ih later
    have left : (stepPattern u).findIter 0 (leftover s tail) = rest.map captured := by
      rw [leftover]
      split
      · exact behind
      · rw [findIter_dependsLine,behind]
    obtain ⟨pre,nonempty,parts⟩ := leftover_behind s tail
    have found := step_match here ends
    rw [parts] at found
    rw [text,findIter_clear (blank s.before),parts,Regex.findIter_found nonempty found,left,List.map_cons]

end

end IceOS.TaskDecomposer
