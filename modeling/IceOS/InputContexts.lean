import IceOS.ContextBuilder

/-! What the input mappings of a node are resolved to, and when an exception goes past the builder. -/
namespace IceOS.ContextBuilder

/-- The keys of a path. -/
def pathKeys (path : String) : List String :=
  if path = "" ∨ path = "." then [] else PythonText.split "." path

/-- The value at the end of a path: a key of a dictionary, or an index of a list, at a time. -/
inductive At : List String → Value → Value → Prop where
  | here {v : Value} : At [] v v
  | entry {key : String} {rest : List String} {entries : List (String × Value)} {v w : Value}
      (known : entries.lookup key = some v) (after : At rest v w) : At (key :: rest) (.dict entries) w
  | item {key : String} {rest : List String} {items : List Value} {n : Int} {v w : Value}
      (number : PythonText.int? key = some n) (known : index? items n = some v) (after : At rest v w) :
      At (key :: rest) (.list items) w

/-- The path comes to a list with a key that is no number. -/
inductive Refused : List String → Value → Prop where
  | here {key : String} {rest : List String} {items : List Value} (text : PythonText.int? key = none) :
      Refused (key :: rest) (.list items)
  | entry {key : String} {rest : List String} {entries : List (String × Value)} {v : Value}
      (known : entries.lookup key = some v) (after : Refused rest v) : Refused (key :: rest) (.dict entries)
  | item {key : String} {rest : List String} {items : List Value} {n : Int} {v : Value}
      (number : PythonText.int? key = some n) (known : index? items n = some v) (after : Refused rest v) :
      Refused (key :: rest) (.list items)

/-- How following the keys can end. -/
inductive Followed (keys : List String) (data : Value) : Except PathError Value → Prop where
  | found {v : Value} (there : At keys data v) (numbers : ¬Refused keys data) : Followed keys data (.ok v)
  | lost {e : Exn} (nowhere : ∀ v, ¬At keys data v) (numbers : ¬Refused keys data) :
      Followed keys data (.error (.lookup e))
  | refused {text : String} (refused : Refused keys data) : Followed keys data (.error (.value (valueError text)))

/-- One more key in front, where it leads to `data`. -/
theorem Followed.cons {key : String} {keys : List String} {whole data : Value} {result : Except PathError Value}
    (followed : Followed keys data result) (at_iff : ∀ v, At (key :: keys) whole v ↔ At keys data v)
    (refused_iff : Refused (key :: keys) whole ↔ Refused keys data) : Followed (key :: keys) whole result := by
  cases followed with
  | found there numbers => exact .found ((at_iff _).mpr there) (mt refused_iff.mp numbers)
  | lost nowhere numbers => exact .lost (fun v => mt (at_iff v).mp (nowhere v)) (mt refused_iff.mp numbers)
  | refused refused => exact .refused (refused_iff.mpr refused)

@[simp] theorem at_dict_iff {key : String} {rest : List String} {entries : List (String × Value)} {w : Value} :
    At (key :: rest) (.dict entries) w ↔ ∃ v, entries.lookup key = some v ∧ At rest v w := by
  constructor
  · intro there
    cases there with
    | entry known after => exact ⟨_,known,after⟩
  · rintro ⟨v,known,after⟩
    exact .entry known after

@[simp] theorem at_list_iff {key : String} {rest : List String} {items : List Value} {w : Value} :
    At (key :: rest) (.list items) w ↔
      ∃ n, PythonText.int? key = some n ∧ ∃ v, index? items n = some v ∧ At rest v w := by
  constructor
  · intro there
    cases there with
    | item number known after => exact ⟨_,number,_,known,after⟩
  · rintro ⟨n,number,v,known,after⟩
    exact .item number known after

@[simp] theorem refused_dict_iff {key : String} {rest : List String} {entries : List (String × Value)} :
    Refused (key :: rest) (.dict entries) ↔ ∃ v, entries.lookup key = some v ∧ Refused rest v := by
  constructor
  · intro refused
    cases refused with
    | entry known after => exact ⟨_,known,after⟩
  · rintro ⟨v,known,after⟩
    exact .entry known after

@[simp] theorem refused_list_iff {key : String} {rest : List String} {items : List Value} :
    Refused (key :: rest) (.list items) ↔ PythonText.int? key = none ∨
      ∃ n, PythonText.int? key = some n ∧ ∃ v, index? items n = some v ∧ Refused rest v := by
  constructor
  · intro refused
    cases refused with
    | here text => exact .inl text
    | item number known after => exact .inr ⟨_,number,_,known,after⟩
  · rintro (text | ⟨n,number,v,known,after⟩)
    · exact .here text
    · exact .item number known after

theorem foldlM_resolveKey (path : String) (keys : List String) (data : Value) :
    Followed keys data (keys.foldlM (resolveKey path) data) := by
  induction keys generalizing data with
  | nil =>
    refine .found .here fun refused => ?_
    cases refused
  | cons key rest ih =>
    rw [List.foldlM_cons]
    cases data with
    | dict entries =>
      simp only [resolveKey]
      cases known : entries.lookup key with
      | none => exact .lost (by simp [known]) (by simp [known])
      | some v => exact (ih v).cons (by simp [known]) (by simp [known])
    | list items =>
      simp only [resolveKey]
      cases number : PythonText.int? key with
      | none => exact .refused (.here number)
      | some n =>
        simp only
        cases known : index? items n with
        | none => exact .lost (by simp [number,known]) (by simp [number,known])
        | some v => exact (ih v).cons (by simp [number,known]) (by simp [number,known])
    | none | bool | int | str | other =>
      refine .lost (fun v there => ?_) fun refused => ?_
      · cases there
      · cases refused

theorem resolveNestedPath_followed (data : Value) (path : String) :
    Followed (pathKeys path) data (resolveNestedPath data path) := by
  simp only [resolveNestedPath,pathKeys]
  split
  · exact foldlM_resolveKey path [] data
  · exact foldlM_resolveKey path (PythonText.split "." path) data

/-! ### Mappings -/

/-- The value of a mapping: the literal, or what the path leads to in the output of the dependency. -/
inductive Resolved (results : Results) : InputMapping → Value → Prop where
  | literal {v : Value} : Resolved results (.literal v) v
  | reference {dep key : String} {r : NodeExecutionResult} {v : Value} (ran : results.get? dep = some r)
      (succeeded : r.success = true) (there : At (pathKeys key) r.output v) :
      Resolved results (.reference (some dep) (some key)) v

/-- The line about a mapping that has no value. -/
inductive Reported (results : Results) (placeholder : String) : InputMapping → String → Prop where
  | invalid {dep key : Option String} (incomplete : dep = none ∨ key = none) :
      Reported results placeholder (.reference dep key) s!"Invalid input mapping for placeholder '{placeholder}'"
  | missing {dep key : String} (unusable : ∀ r, results.get? dep = some r → r.success = false) :
      Reported results placeholder (.reference (some dep) (some key)) s!"Dependency '{dep}' failed or did not run."
  | unresolved {dep key reason : String} :
      Reported results placeholder (.reference (some dep) (some key))
        (s!"Failed to resolve path '{key}' in dependency '{dep}': " ++ reason)

/-- Every mapping has its value placed under its name, or has none and a line that reports it. -/
inductive Drafted (results : Results) : List (String × InputMapping) → List (String × Value) → List String → Prop where
  | nil : Drafted results [] [] []
  | resolved {placeholder : String} {mapping : InputMapping} {rest : List (String × InputMapping)} {v : Value}
      {placed : List (String × Value)} {errors : List String} (value : Resolved results mapping v)
      (after : Drafted results rest placed errors) :
      Drafted results ((placeholder,mapping) :: rest) ((placeholder,v) :: placed) errors
  | unresolved {placeholder : String} {mapping : InputMapping} {rest : List (String × InputMapping)} {line : String}
      {placed : List (String × Value)} {errors : List String} (none : ∀ v, ¬Resolved results mapping v)
      (reported : Reported results placeholder mapping line) (after : Drafted results rest placed errors) :
      Drafted results ((placeholder,mapping) :: rest) placed (line :: errors)

/-- The mapping leads into the output of a successful dependency, to a list with a key that is no number. -/
def Stuck (results : Results) : InputMapping → Prop
  | .reference (some dep) (some key) =>
    ∃ r, results.get? dep = some r ∧ r.success = true ∧ Refused (pathKeys key) r.output
  | _ => False

/-- The builder returns the values of all mappings, or reports all mappings that have none. -/
def Answers (node : NodeConfig) (mappings : OrderedDict String InputMapping) (results : Results) : Prop :=
  ∃ placed errors, Drafted results mappings.items placed errors ∧
    match buildNodeContext { node with inputMappings := mappings.items } results with
    | .ok context => errors = [] ∧ context.keys = mappings.keys ∧ context.items = placed
    | .error e => errors ≠ [] ∧ e = contextError node.id errors

section

variable {results : Results}

/-- Without a report there is one entry for each mapping. -/
theorem Drafted.keys {mappings : List (String × InputMapping)} {placed : List (String × Value)}
    (drafted : Drafted results mappings placed []) : placed.map Prod.fst = mappings.map Prod.fst := by
  generalize none : ([] : List String) = errors at drafted
  induction drafted with
  | nil => rfl
  | resolved value after ih => rw [List.map_cons,List.map_cons,ih none]
  | unresolved => cases none

/-- What a mapping does to the draft: a value, a line, or an exception. -/
inductive Placing (results : Results) (draft : Draft) (entry : String × InputMapping) : Except Exn Draft → Prop where
  | placed {v : Value} (value : Resolved results entry.2 v) (free : ¬Stuck results entry.2) :
      Placing results draft entry (.ok (draft.1.set entry.1 v,draft.2))
  | reported {line : String} (none : ∀ v, ¬Resolved results entry.2 v) (free : ¬Stuck results entry.2)
      (reported : Reported results entry.1 entry.2 line) :
      Placing results draft entry (.ok (draft.1,draft.2 ++ [line]))
  | raised {text : String} (stuck : Stuck results entry.2) : Placing results draft entry (.error (valueError text))

theorem resolved_reference_iff {dep key : Option String} {v : Value} :
    Resolved results (.reference dep key) v ↔ ∃ id path, dep = some id ∧ key = some path ∧
      ∃ r, results.get? id = some r ∧ r.success = true ∧ At (pathKeys path) r.output v := by
  constructor
  · intro resolved
    cases resolved with
    | reference ran succeeded there => exact ⟨_,_,rfl,rfl,_,ran,succeeded,there⟩
  · rintro ⟨id,path,rfl,rfl,r,ran,succeeded,there⟩
    exact .reference ran succeeded there

/-- Nothing is read from a dependency that did not run or failed. -/
theorem placeReference_unusable {dep key : String} (draft : Draft) (placeholder : String)
    (unusable : ∀ r, results.get? dep = some r → r.success = false) :
    Placing results draft (placeholder,.reference (some dep) (some key))
      (.ok (draft.1,draft.2 ++ [s!"Dependency '{dep}' failed or did not run."])) := by
  refine .reported (fun v value => ?_) ?_ (.missing unusable)
  · obtain ⟨id,path,same,_,r,ran,succeeded,_⟩ := resolved_reference_iff.mp value
    cases same
    rw [unusable r ran] at succeeded
    cases succeeded
  · rintro ⟨r,ran,succeeded,_⟩
    rw [unusable r ran] at succeeded
    cases succeeded

theorem placeMapping_placing (results : Results) (draft : Draft) (entry : String × InputMapping) :
    Placing results draft entry (placeMapping results draft entry) := by
  obtain ⟨placeholder,mapping⟩ := entry
  cases mapping with
  | literal v => exact .placed .literal id
  | reference dep key =>
    cases dep with
    | none => exact .reported (by simp [resolved_reference_iff]) id (.invalid (.inl rfl))
    | some dep =>
      cases key with
      | none => exact .reported (by simp [resolved_reference_iff]) id (.invalid (.inr rfl))
      | some key =>
        cases ran : results.get? dep with
        | none =>
          simp only [placeMapping,placeReference,ran]
          exact placeReference_unusable draft placeholder (by simp [ran])
        | some r =>
          obtain ⟨success,error,output,usage⟩ := r
          cases success with
          | false =>
            simp only [placeMapping,placeReference,ran]
            exact placeReference_unusable draft placeholder (by simp [ran])
          | true =>
            simp only [placeMapping,placeReference,ran]
            have free (numbers : ¬Refused (pathKeys key) output) :
                ¬Stuck results (.reference (some dep) (some key)) := by
              rintro ⟨r,ran',_,refused⟩
              cases ran.symm.trans ran'
              exact numbers refused
            have followed := resolveNestedPath_followed output key
            generalize resolveNestedPath output key = result at followed
            cases followed with
            | found there numbers => exact .placed (.reference ran rfl there) (free numbers)
            | lost nowhere numbers =>
              exact .reported (by simp [resolved_reference_iff,ran,nowhere]) (free numbers) .unresolved
            | refused refused => exact .raised ⟨_,ran,rfl,refused⟩

/-- Without a stuck mapping all of them are placed or reported, and at the first stuck one a `ValueError` is raised. -/
theorem placeMappings (results : Results) (mappings : List (String × InputMapping)) (draft : Draft)
    (fresh : (draft.1.keys ++ mappings.map Prod.fst).Nodup) :
    (∃ placed errors, Drafted results mappings placed errors ∧ (∀ entry ∈ mappings, ¬Stuck results entry.2) ∧
      ∃ context : Context, mappings.foldlM (placeMapping results) draft = .ok (context,draft.2 ++ errors) ∧
        context.items = draft.1.items ++ placed) ∨
    (∃ entry ∈ mappings, Stuck results entry.2) ∧
      ∃ text, mappings.foldlM (placeMapping results) draft = .error (valueError text) := by
  induction mappings generalizing draft with
  | nil => exact .inl ⟨[],[],.nil,by simp,draft.1,by simp [pure,Except.pure],by simp⟩
  | cons entry rest ih =>
    rw [List.foldlM_cons]
    have step := placeMapping_placing results draft entry
    generalize placeMapping results draft entry = outcome at step
    cases step with
    | raised stuck => exact .inr ⟨⟨entry,List.mem_cons_self,stuck⟩,_,rfl⟩
    | @placed v value free =>
      have new : entry.1 ∉ draft.1.keys := by
        intro known
        exact (List.nodup_append.mp fresh).2.2 _ known _ List.mem_cons_self rfl
      have items : (draft.1.set entry.1 v).items = draft.1.items ++ [(entry.1,v)] :=
        OrderedDict.insert_fresh _ _ _ new
      have fresh' : ((draft.1.set entry.1 v).keys ++ rest.map Prod.fst).Nodup := by
        rw [OrderedDict.keys,items,List.map_append,List.append_assoc]
        exact fresh
      rcases ih (draft.1.set entry.1 v,draft.2) fresh' with ⟨placed,errors,drafted,all,context,done,same⟩ | ⟨stuck,raised⟩
      · refine .inl ⟨(entry.1,v) :: placed,errors,.resolved value drafted,List.forall_mem_cons.mpr ⟨free,all⟩,context,
          done,?_⟩
        rw [same,items,List.append_assoc]
        rfl
      · obtain ⟨other,member,stuck⟩ := stuck
        exact .inr ⟨⟨other,List.mem_cons_of_mem entry member,stuck⟩,raised⟩
    | @reported line none free reported =>
      have fresh' : (draft.1.keys ++ rest.map Prod.fst).Nodup :=
        fresh.sublist ((List.sublist_cons_self _ _).append_left _)
      rcases ih (draft.1,draft.2 ++ [line]) fresh' with ⟨placed,errors,drafted,all,context,done,same⟩ | ⟨stuck,raised⟩
      · refine .inl ⟨placed,line :: errors,.unresolved none reported drafted,List.forall_mem_cons.mpr ⟨free,all⟩,
          context,?_,same⟩
        rw [List.append_assoc] at done
        exact done
      · obtain ⟨other,member,stuck⟩ := stuck
        exact .inr ⟨⟨other,List.mem_cons_of_mem entry member,stuck⟩,raised⟩

theorem valueError_ne_contextError (text id : String) (errors : List String) :
    valueError text ≠ contextError id errors := by
  intro same
  have shown := congrArg (fun e : Exn => e.shown.toList.head?) same
  simp [valueError,contextError] at shown

/-- Everything is answered unless a path comes to a list with a key that is no number. -/
theorem buildNodeContext_answers_iff (node : NodeConfig) (mappings : OrderedDict String InputMapping)
    (results : Results) : Answers node mappings results ↔
      ∀ placeholder mapping, mappings.get? placeholder = some mapping → ¬Stuck results mapping := by
  have known (entry : String × InputMapping) : entry ∈ mappings.items ↔ mappings.get? entry.1 = some entry.2 :=
    (mappings.get?_eq_some entry.1 entry.2).symm
  have fresh : ((OrderedDict.empty : Context).keys ++ mappings.items.map Prod.fst).Nodup := mappings.nodup
  rcases placeMappings results mappings.items (.empty,[]) fresh with
    ⟨placed,errors,drafted,free,context,done,items⟩ | ⟨⟨entry,member,stuck⟩,text,raised⟩
  · refine iff_of_true ⟨placed,errors,drafted,?_⟩ fun placeholder mapping found => ?_
    · rw [List.nil_append] at done
      simp only [buildNodeContext,done,bind,Except.bind]
      cases errors with
      | nil =>
        have keys : context.keys = mappings.keys := by
          rw [OrderedDict.keys,items]
          exact drafted.keys
        exact ⟨rfl,keys,items⟩
      | cons line rest => exact ⟨List.cons_ne_nil line rest,rfl⟩
    · exact free (placeholder,mapping) ((known _).mpr found)
  · refine iff_of_false ?_ fun free => free entry.1 entry.2 ((known entry).mp member) stuck
    rintro ⟨placed,errors,_,answer⟩
    simp only [buildNodeContext,raised,bind,Except.bind] at answer
    exact valueError_ne_contextError text node.id errors answer.2

end

/-- A path into a list by the name of a field. -/
theorem listPath_escapes : ¬∀ (node : NodeConfig) (mappings : OrderedDict String InputMapping) (results : Results),
    Answers node mappings results := by
  intro answers
  obtain ⟨_,_,_,answer⟩ := answers { id := "show",type := .tool }
    (.ofList [("title",.reference (some "fetch") (some "title"))]) (.ofList [("fetch",{ output := .list [] })])
  exact valueError_ne_contextError "invalid literal for int() with base 10: 'title'" "show" _ answer.2

end IceOS.ContextBuilder
