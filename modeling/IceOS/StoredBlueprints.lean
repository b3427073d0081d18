import IceOS.BlueprintStore
import IceOS.CyclePolicies
import IceOS.NodePatches

/-! Which write requests keep the stored blueprints well formed. The MCP routes check for cycles, the REST
routes only that the dependencies exist. -/
namespace IceOS

open ActionRuns DirectedGraph ExceptRules

/-! ### Well-formed blueprints -/

/-- What the cycle check of the dependency graph reads of a specification; `sources` are the
`recursive_sources` in its JSON. -/
def skeleton (sources : NodeSpec → List String) (spec : NodeSpec) : NodeConfig where
  id := spec.id
  type := (nodeTypeMap.lookup spec.type).getD .tool
  dependencies := spec.dependencies
  recursiveSources := sources spec

/-- All cycles are ones that the dependency graph accepts. -/
def Controlled (sources : NodeSpec → List String) (nodes : List NodeSpec) : Prop :=
  ∀ c, ¬Uncontrolled nodes (nodes.map (skeleton sources)) c

structure WellFormed (sources : NodeSpec → List String) (bp : Blueprint) : Prop where
  distinct : (bp.nodes.map (·.id)).Nodup
  resolves : ∀ u v, DependsOn bp.nodes u v → u ∈ bp.nodes.map (·.id)
  controlled : Controlled sources bp.nodes

theorem skeleton_kept (sources : NodeSpec → List String) (nodes : List NodeSpec) :
    (nodes.map (skeleton sources)).map (fun node => (node.id,node.dependencies)) =
      nodes.map fun spec => (spec.id,spec.dependencies) := by
  rw [List.map_map]
  rfl

theorem validates_iff (bp : Blueprint) :
    bp.validates = true ↔ ∀ u v, DependsOn bp.nodes u v → u ∈ bp.nodes.map (·.id) := by
  simp only [Blueprint.validates,List.all_eq_true,List.contains_iff_mem]
  constructor
  · rintro all u v ⟨node,member,_,depends⟩
    exact all node member u depends
  · intro resolves node member dep depends
    exact resolves dep node.id ⟨node,member,rfl,depends⟩

/-- A blueprint is well formed if its ids are distinct and the dependency graph accepts its nodes. -/
theorem wellFormed_iff {nx : Networkx} (correct : nx.Correct) (sources : NodeSpec → List String) (bp : Blueprint) :
    WellFormed sources bp ↔ (bp.nodes.map (·.id)).Nodup ∧
      ∃ d, DependencyGraph.new nx (bp.nodes.map (skeleton sources)) = .ok d := by
  have kept := skeleton_kept sources bp.nodes
  constructor
  · intro formed
    refine ⟨formed.distinct,?_⟩
    obtain ⟨g,built,same⟩ := buildGraph_kept kept formed.resolves
    have checked : DependencyGraph.checkCycles nx (bp.nodes.map (skeleton sources)) g = .ok () := by
      rw [DependencyGraph.checkCycles_iff correct,same]
      intro c cycle
      exact Bool.of_not_eq_false fun refused => formed.controlled c ⟨cycle,refused⟩
    simp [DependencyGraph.new,built,checked,bind,Except.bind,pure,Except.pure]
  · rintro ⟨distinct,d,made⟩
    have built := (DependencyGraph.new_eq_ok made).1
    have resolves (u v : String) (depends : DependsOn bp.nodes u v) : u ∈ bp.nodes.map (·.id) := by
      obtain ⟨node,member,_,depends⟩ := (dependsOn_kept kept u v).mp depends
      rw [← ids_kept kept]
      exact (DependencyGraph.buildGraph_edges built node member u depends).1
    refine ⟨distinct,resolves,fun c refused => ?_⟩
    have valid := (DependencyGraph.checkCycles_iff correct _ _).mp (DependencyGraph.new_checked made) c
    rw [buildGraph_dependsOn kept built] at valid
    exact absurd (valid refused.1) (by simp [refused.2])

/-- `validate_blueprint` lets no cycle pass. -/
theorem validateBlueprint_wellFormed (sources : NodeSpec → List String) {bp : Blueprint}
    (accepted : SchemaValidator.validateBlueprint bp = .ok ()) : WellFormed sources bp := by
  obtain ⟨_,distinct,rank,rising⟩ := (SchemaValidator.validateBlueprint_iff bp).mp accepted
  refine ⟨distinct,fun u v depends => (rising u v depends).1,fun c refused => ?_⟩
  have acyclic (n : String) (cycle : Relation.TransGen (DependsOn bp.nodes) n n) : False := by
    have lower (u v : String) (path : Relation.TransGen (DependsOn bp.nodes) u v) : rank u < rank v := by
      induction path with
      | single depends => exact (rising _ _ depends).2
      | tail _ depends ih => exact ih.trans (rising _ _ depends).2
    exact Nat.lt_irrefl _ (lower n n cycle)
  exact acyclic_iff.mp acyclic c refused.1

/-! ### What a request stores -/

@[simp] theorem refuseIf_eq_ok {condition : Bool} {status : Nat} {u : Unit} :
    refuseIf condition status = .ok u ↔ condition = false := by
  cases condition <;> simp [refuseIf]

namespace BlueprintStore

variable {x : BlueprintRoutes} {c : Circumstances} {s t : BlueprintStore}

/-- The blueprint that a request stores if it succeeds. -/
def written (x : BlueprintRoutes) (s : BlueprintStore) (c : Circumstances) : WriteRequest → Option Blueprint
  | .create payload _ => some payload
  | .change id request => (s.loadBlueprint c id >>= x.checks.prepare request).toOption.join
  | .clone id => (s.loadBlueprint c id).toOption
  | .mcpCreate payload => some { payload with blueprintId := x.contentId payload }
  | .finalize id _ =>
    (s.partials.get? id).bind fun entry => entry.1.toBlueprint.map fun bp => { bp with blueprintId := x.contentId bp }
  | .edit _ _ _ => none

theorem loadBlueprint_stored {id : String} {bp : Blueprint} (loaded : s.loadBlueprint c id = .ok bp) :
    s.Stored bp ∧ bp.validates = true := by
  have filtered {found : Option Blueprint} {answered : Bool}
      (same : (if answered then found.filter (·.validates) else none) = some bp) :
      found = some bp ∧ bp.validates = true := by
    split at same
    · exact Option.filter_eq_some_iff.mp same
    · cases same
  simp only [loadBlueprint] at loaded
  split at loaded
  · next other found =>
    cases loaded
    rcases Option.or_eq_some_iff.mp found with record | ⟨_,cached⟩
    · exact ⟨⟨id,.inl (filtered record).1⟩,(filtered record).2⟩
    · exact ⟨⟨id,.inr (filtered cached).1⟩,(filtered cached).2⟩
  · cases loaded

/-- `w` has been stored, and nothing else that was not there before. -/
structure Wrote (s t : BlueprintStore) (w : Option Blueprint) : Prop where
  known : ∀ bp, t.Stored bp → s.Stored bp ∨ w = some bp
  there : ∀ bp, w = some bp → t.Stored bp

theorem store_wrote (s : BlueprintStore) (c : Circumstances) (id : String) (bp : Blueprint) :
    Wrote s (s.store c id bp) (some bp) := by
  have set {d : OrderedDict String Blueprint} {key : String} {other : Blueprint}
      (found : (d.set id bp).get? key = some other) : d.get? key = some other ∨ bp = other := by
    rw [OrderedDict.get?_set] at found
    split at found
    · exact .inr (Option.some.inj found)
    · exact .inl found
  constructor
  · rintro other ⟨key,found⟩
    simp only [store,saveBlueprint] at found
    split at found
    · rcases found with record | cached
      · exact (set record).imp (fun old => ⟨key,.inl old⟩) (congrArg some)
      · exact (set cached).imp (fun old => ⟨key,.inr old⟩) (congrArg some)
    · rcases found with record | cached
      · exact (set record).imp (fun old => ⟨key,.inl old⟩) (congrArg some)
      · exact .inl ⟨key,.inr cached⟩
  · rintro other same
    cases same
    refine ⟨id,.inl ?_⟩
    simp only [store,saveBlueprint]
    split <;> exact OrderedDict.get?_set_same _ _ _

theorem cache_wrote (s : BlueprintStore) (id : String) (bp : Blueprint)
    (partials : OrderedDict String (PartialBlueprint × String)) :
    Wrote s { s with cache := s.cache.set id bp,partials } (some bp) := by
  constructor
  · rintro other ⟨key,record | cached⟩
    · exact .inl ⟨key,.inl record⟩
    · simp only [OrderedDict.get?_set] at cached
      split at cached
      · exact .inr cached
      · exact .inl ⟨key,.inr cached⟩
  · rintro other same
    cases same
    exact ⟨id,.inr (OrderedDict.get?_set_same _ _ _)⟩

theorem createBlueprint_ok {payload : Blueprint} {versionLock : Option String}
    (handled : s.createBlueprint x c payload versionLock = .ok t) :
    payload.validates = true ∧ t = s.store c c.newId payload := by
  simp only [createBlueprint,bind_eq_ok,refuseIf_eq_ok] at handled
  obtain ⟨_,valid,_,_,handled⟩ := handled
  split at handled
  · cases handled
  · obtain ⟨_,_,stored⟩ := bind_eq_ok.mp handled
    cases stored
    exact ⟨by simpa using valid,rfl⟩

theorem changeBlueprint_ok {id : String} {r : Request} (handled : s.changeBlueprint x c id r = .ok t) :
    ∃ bp target, s.loadBlueprint c id = .ok bp ∧ x.checks.prepare r bp = .ok target ∧
      Wrote s t target := by
  simp only [changeBlueprint,bind_eq_ok] at handled
  obtain ⟨bp,loaded,target,ready,_,_,changed⟩ := handled
  refine ⟨bp,target,loaded,ready,?_⟩
  cases target with
  | some target =>
    cases changed
    exact store_wrote s c id target
  | none =>
    have erase {d : OrderedDict String Blueprint} {key : String} {other : Blueprint} :
        (d.erase id).get? key = some other → d.get? key = some other :=
      OrderedDict.forall_erase (fun _ _ found => found) id key other
    refine ⟨fun other stored => .inl ?_,fun other none => by cases none⟩
    obtain ⟨key,found⟩ := stored
    cases changed
    refine ⟨key,?_⟩
    split at found
    · exact found.imp erase erase
    · exact found.imp_left erase

theorem cloneBlueprint_ok {id : String} (handled : s.cloneBlueprint c id = .ok t) :
    ∃ bp, s.loadBlueprint c id = .ok bp ∧ t = s.store c c.newId bp := by
  simp only [cloneBlueprint,bind_eq_ok] at handled
  obtain ⟨bp,loaded,_,_,stored⟩ := handled
  cases stored
  exact ⟨bp,loaded,rfl⟩

theorem register_ok {bp : Blueprint} (handled : s.register x c bp = .ok t) :
    t = { s with cache := s.cache.set (x.contentId bp) { bp with blueprintId := x.contentId bp } } := by
  simp only [register,bind_eq_ok] at handled
  obtain ⟨_,_,stored⟩ := handled
  cases stored
  rfl

theorem mcpCreateBlueprint_ok {payload : Blueprint} (handled : s.mcpCreateBlueprint x c payload = .ok t) :
    SchemaValidator.validateBlueprint payload = .ok () ∧ s.register x c payload = .ok t := by
  simp only [mcpCreateBlueprint,bind_eq_ok,refuseIf_eq_ok,Bool.not_eq_false',isOk_eq_true] at handled
  obtain ⟨_,_,_,accepted,_,_,registered⟩ := handled
  exact ⟨accepted,registered⟩

theorem finalizePartialBlueprint_ok {id : String} {versionLock : Option String}
    (handled : s.finalizePartialBlueprint x c id versionLock = .ok t) :
    ∃ draft lock bp u, s.partials.get? id = some (draft,lock) ∧ draft.toBlueprint = some bp ∧
      SchemaValidator.validateBlueprint bp = .ok () ∧ s.register x c bp = .ok u ∧
      t = { u with partials := u.partials.erase id } := by
  simp only [finalizePartialBlueprint,bind_eq_ok] at handled
  obtain ⟨_,_,handled⟩ := handled
  split at handled
  · cases handled
  · next draft lock found =>
    simp only [bind_eq_ok] at handled
    obtain ⟨_,_,_,_,handled⟩ := handled
    split at handled
    · cases handled
    · next bp converted =>
      simp only [bind_eq_ok,refuseIf_eq_ok,Bool.not_eq_false',isOk_eq_true] at handled
      obtain ⟨_,accepted,_,_,u,registered,ended⟩ := handled
      cases ended
      exact ⟨draft,lock,bp,u,found,converted,accepted,registered,rfl⟩

theorem written_change {id : String} {r : Request} {bp : Blueprint} {target : Option Blueprint}
    (loaded : s.loadBlueprint c id = .ok bp) (ready : x.checks.prepare r bp = .ok target) :
    written x s c (.change id r) = target := by
  simp only [written,loaded,bind,Except.bind,ready,Except.toOption,Option.join_some]

theorem written_clone {id : String} {bp : Blueprint} (loaded : s.loadBlueprint c id = .ok bp) :
    written x s c (.clone id) = some bp := by
  simp only [written,loaded,Except.toOption]

theorem written_finalize {id lock : String} {versionLock : Option String} {draft : PartialBlueprint} {bp : Blueprint}
    (found : s.partials.get? id = some (draft,lock)) (converted : draft.toBlueprint = some bp) :
    written x s c (.finalize id versionLock) = some { bp with blueprintId := x.contentId bp } := by
  simp only [written,found,Option.bind_some,converted,Option.map_some]

theorem handle_wrote {r : WriteRequest} (handled : s.handle x c r = .ok t) : Wrote s t (written x s c r) := by
  cases r with
  | create payload versionLock =>
    obtain ⟨_,rfl⟩ := createBlueprint_ok handled
    exact store_wrote s c c.newId payload
  | change id r =>
    obtain ⟨bp,target,loaded,ready,wrote⟩ := changeBlueprint_ok handled
    rw [written_change loaded ready]
    exact wrote
  | clone id =>
    obtain ⟨bp,loaded,rfl⟩ := cloneBlueprint_ok handled
    rw [written_clone loaded]
    exact store_wrote s c c.newId bp
  | mcpCreate payload =>
    obtain ⟨_,registered⟩ := mcpCreateBlueprint_ok handled
    rw [register_ok registered]
    exact cache_wrote s _ _ s.partials
  | finalize id versionLock =>
    obtain ⟨draft,lock,bp,u,found,converted,_,registered,rfl⟩ := finalizePartialBlueprint_ok handled
    rw [register_ok registered,written_finalize found converted]
    exact cache_wrote s _ _ _
  | edit id content lock =>
    cases handled
    exact ⟨fun bp stored => .inl stored,fun bp none => by cases none⟩

/-- A change that passed its checks. -/
inductive Prepared (bp : Blueprint) : Method → Option Blueprint → Prop where
  | patch (nodes : List NodeSpec) (valid : ({ bp with nodes := mergeNodes bp.nodes nodes } : Blueprint).validates = true) :
      Prepared bp (.patch (some nodes)) (some { bp with nodes := mergeNodes bp.nodes nodes })
  | put (payload : Blueprint) (valid : payload.validates = true) : Prepared bp (.put (some payload)) (some payload)
  | delete : Prepared bp .delete none

theorem prepare_ok {method : Method} {versionLock : Option String} {bp : Blueprint} {target : Option Blueprint}
    (ready : x.checks.prepare ⟨method,versionLock⟩ bp = .ok target) : Prepared bp method target := by
  have passed (bp : Blueprint) (accepted : x.checks.refuses bp = none) : bp.validates = true := by
    simp only [BlueprintRoutes.checks] at accepted
    split at accepted
    · assumption
    · cases accepted
  simp only [BlueprintChecks.prepare] at ready
  obtain ⟨_,_,ready⟩ := bind_eq_ok.mp ready
  cases method with
  | patch nodes =>
    cases nodes with
    | none => cases ready
    | some nodes =>
      obtain ⟨target,found,ready⟩ := bind_eq_ok.mp ready
      cases found
      split at ready
      · cases ready
      · next accepted =>
        cases ready
        exact .patch nodes (passed _ accepted)
  | put payload =>
    cases payload with
    | none => cases ready
    | some payload =>
      obtain ⟨target,found,ready⟩ := bind_eq_ok.mp ready
      cases found
      split at ready
      · cases ready
      · next accepted =>
        cases ready
        exact .put payload (passed _ accepted)
  | delete =>
    cases ready
    exact .delete

end BlueprintStore

/-! ### Runs -/

/-- What REST leaves to its callers: ids are distinct and all cycles are controlled. -/
def Acceptable (sources : NodeSpec → List String) (nodes : List NodeSpec) : Prop :=
  (nodes.map (·.id)).Nodup ∧ Controlled sources nodes

theorem acceptable_iff {sources : NodeSpec → List String} {bp : Blueprint} (valid : bp.validates = true) :
    WellFormed sources bp ↔ Acceptable sources bp.nodes := by
  constructor
  · intro formed
    exact ⟨formed.distinct,formed.controlled⟩
  · rintro ⟨distinct,controlled⟩
    exact ⟨distinct,(validates_iff bp).mp valid,controlled⟩

namespace BlueprintStore

def Sound (sources : NodeSpec → List String) (s : BlueprintStore) : Prop := ∀ bp, s.Stored bp → WellFormed sources bp

/-- A body that REST creates or puts has distinct ids and only controlled cycles, and what a patch makes of
the blueprint has only controlled cycles. -/
def Careful (sources : NodeSpec → List String) (s : BlueprintStore) (a : WriteRequest × Circumstances) : Prop :=
  match a.1 with
  | .create payload _ => Acceptable sources payload.nodes
  | .change _ ⟨.put (some payload),_⟩ => Acceptable sources payload.nodes
  | .change id ⟨.patch (some nodes),_⟩ =>
    ∀ bp, s.loadBlueprint a.2 id = .ok bp → Controlled sources (mergeNodes bp.nodes nodes)
  | _ => True

variable {x : BlueprintRoutes} {sources : NodeSpec → List String} {c : Circumstances} {s t : BlueprintStore}

/-- A registered blueprint differs from the validated one in its id. -/
theorem renamed_wellFormed {bp : Blueprint} (id : String) (accepted : SchemaValidator.validateBlueprint bp = .ok ()) :
    WellFormed sources { bp with blueprintId := id } := by
  have formed := validateBlueprint_wellFormed sources accepted
  exact ⟨formed.distinct,formed.resolves,formed.controlled⟩

theorem change_careful_iff {id : String} {r : Request} {bp : Blueprint} {target : Option Blueprint}
    (loaded : s.loadBlueprint c id = .ok bp) (ready : x.checks.prepare r bp = .ok target) :
    (∀ other, target = some other → WellFormed sources other) ↔ Careful sources s (.change id r,c) := by
  obtain ⟨method,versionLock⟩ := r
  cases prepare_ok ready with
  | patch nodes valid =>
    simp only [Option.some.injEq,forall_eq']
    rw [acceptable_iff valid]
    constructor
    · rintro ⟨_,controlled⟩ other loaded'
      cases loaded.symm.trans loaded'
      exact controlled
    · intro careful
      exact ⟨mergeNodes_distinct bp.nodes nodes,careful bp loaded⟩
  | put payload valid =>
    simp only [Option.some.injEq,forall_eq']
    exact acceptable_iff valid
  | delete => exact ⟨fun _ => trivial,fun _ other none => by cases none⟩

/-- What a request stores is well formed exactly if the request is careful. -/
theorem written_wellFormed_iff (sound : s.Sound sources) {r : WriteRequest} (handled : s.handle x c r = .ok t) :
    (∀ bp, written x s c r = some bp → WellFormed sources bp) ↔ Careful sources s (r,c) := by
  cases r with
  | create payload versionLock =>
    obtain ⟨valid,_⟩ := createBlueprint_ok handled
    simp only [written,Option.some.injEq,forall_eq']
    exact acceptable_iff valid
  | change id r =>
    obtain ⟨bp,target,loaded,ready,_⟩ := changeBlueprint_ok handled
    rw [written_change loaded ready]
    exact change_careful_iff loaded ready
  | clone id =>
    obtain ⟨bp,loaded,_⟩ := cloneBlueprint_ok handled
    refine ⟨fun _ => trivial,fun _ other same => ?_⟩
    cases (written_clone loaded).symm.trans same
    exact sound bp (loadBlueprint_stored loaded).1
  | mcpCreate payload =>
    obtain ⟨accepted,_⟩ := mcpCreateBlueprint_ok handled
    refine ⟨fun _ => trivial,fun _ other same => ?_⟩
    cases same
    exact renamed_wellFormed _ accepted
  | finalize id versionLock =>
    obtain ⟨draft,lock,bp,u,found,converted,accepted,_⟩ := finalizePartialBlueprint_ok handled
    refine ⟨fun _ => trivial,fun _ other same => ?_⟩
    cases (written_finalize found converted).symm.trans same
    exact renamed_wellFormed _ accepted
  | edit id content lock => exact ⟨fun _ => trivial,fun _ other none => by cases none⟩

theorem step_sound_iff (s : BlueprintStore) (a : WriteRequest × Circumstances) (t : BlueprintStore)
    (sound : s.Sound sources) (stepped : s.step x a = some t) : t.Sound sources ↔ Careful sources s a := by
  obtain ⟨r,c⟩ := a
  have handled : s.handle x c r = .ok t := toOption_eq_some.mp stepped
  have wrote := handle_wrote handled
  rw [← written_wellFormed_iff sound handled]
  constructor
  · intro sound' bp same
    exact sound' bp (wrote.there bp same)
  · intro formed bp stored
    rcases wrote.known bp stored with old | new
    · exact sound bp old
    · exact formed bp new

theorem empty_sound (sources : NodeSpec → List String) : Sound sources {} := by
  rintro bp ⟨id,record | cached⟩
  · cases record
  · cases cached

end BlueprintStore

/-- All along a sequence of successful requests, the store holds well-formed blueprints only, exactly if all
requests are careful. -/
theorem stored_wellFormed_iff (x : BlueprintRoutes) (sources : NodeSpec → List String)
    (requests : List (WriteRequest × Circumstances)) (s : BlueprintStore)
    (succeed : run (BlueprintStore.step x) requests {} = some s) :
    (∀ first rest t, requests = first ++ rest → run (BlueprintStore.step x) first {} = some t →
      ∀ bp, t.Stored bp → WellFormed sources bp) ↔
      Throughout (BlueprintStore.step x) (BlueprintStore.Careful sources) requests {} :=
  throughout_iff BlueprintStore.step_sound_iff succeed (BlueprintStore.empty_sound sources)

/-- Nothing is refused, and the hashes tell apart blueprints with different node ids. -/
def plainRoutes : BlueprintRoutes where
  calculateVersionLock bp := " ".intercalate (bp.nodes.map (·.id))
  contentId bp := "bp_" ++ " ".intercalate (bp.nodes.map (·.id))
  toolName _ := none
  package _ := none
  hasTool _ := true
  isToolAllowed _ := true
  isAgentAllowed _ := true
  convertNodeSpecs specs := .ok (specs.map (skeleton fun _ => []))
  runtimeValidate _ := .ok ()
  overBudget _ := false

/-- A blueprint is created, gets a second node and is cloned; another one is registered under MCP. -/
def editing : List (WriteRequest × Circumstances) :=
  [(.create { blueprintId := "bp_1",nodes := [{ id := "draft",type := "tool" }] } "__new__",{ newId := "1" }),
   (.change "1" ⟨.patch (some [{ id := "review",type := "tool",dependencies := ["draft"] }]),"draft"⟩,{}),
   (.clone "1",{ newId := "2" }),
   (.mcpCreate { blueprintId := "bp_2",nodes := [{ id := "draft",type := "tool" }] },{})]

theorem editing_wellFormed_iff : ∃ s, run (BlueprintStore.step plainRoutes) editing {} = some s ∧
    ((∀ first rest t, editing = first ++ rest → run (BlueprintStore.step plainRoutes) first {} = some t →
      ∀ bp, t.Stored bp → WellFormed (fun _ => []) bp) ↔
      Throughout (BlueprintStore.step plainRoutes) (BlueprintStore.Careful fun _ => []) editing {}) := by
  have succeeds : (run (BlueprintStore.step plainRoutes) editing {}).isSome = true := by decide +kernel
  obtain ⟨s,succeed⟩ := Option.isSome_iff_exists.mp succeeds
  exact ⟨s,succeed,stored_wellFormed_iff plainRoutes (fun _ => []) editing s succeed⟩

def circularBlueprint : Blueprint where
  blueprintId := "bp_1"
  nodes :=
    [{ id := "draft",type := "tool",dependencies := ["review"] },
     { id := "review",type := "tool",dependencies := ["draft"] }]

/-- REST creates a blueprint of two tools that depend on each other. -/
theorem circular_stored : ¬∀ (x : BlueprintRoutes) (sources : NodeSpec → List String)
    (requests : List (WriteRequest × Circumstances)) (s : BlueprintStore),
    run (BlueprintStore.step x) requests {} = some s → ∀ bp, s.Stored bp → WellFormed sources bp := by
  intro claim
  have saved : (run (BlueprintStore.step plainRoutes)
      [(.create circularBlueprint "__new__",{ newId := "1" })] {}).map (·.records.get? "1") =
        some (some circularBlueprint) := by decide +kernel
  obtain ⟨s,succeed,found⟩ := Option.map_eq_some_iff.mp saved
  have formed := claim plainRoutes (fun _ => []) _ s succeed circularBlueprint ⟨"1",.inl found⟩
  refine formed.controlled ["draft","review"] ⟨?_,by decide +kernel⟩
  have first : DependsOn circularBlueprint.nodes "draft" "review" := ⟨_,List.mem_cons_of_mem _ List.mem_cons_self,rfl,by decide⟩
  have second : DependsOn circularBlueprint.nodes "review" "draft" := ⟨_,List.mem_cons_self,rfl,by decide⟩
  refine ⟨by decide,by decide,?_,fun u ends v starts => ?_⟩
  · exact .cons_cons first (.singleton "review")
  · cases ends
    cases starts
    exact second

end IceOS
