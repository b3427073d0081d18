import IceOS.RunOutcomes

/-! Which workflows that the constructor accepts can be run. The cycle check lets cycles
through recursive nodes pass, but the gating recursion has no end on them, and the last node
is looked up among nodes without successors. -/
namespace IceOS

open Workflow

/-- Gating gives an answer for every node, whatever positive answers the memo holds. -/
def Answers (wf : Workflow) (limit : Nat) : Prop :=
  ∀ id ∈ wf.nodes.keys, ∀ cache, AllActive cache → (isNodeActive wf.graph limit id cache).isSome = true

def Succeeds (wf : Workflow) (eng : Engine σ) (limit : Nat) (world : σ) : Prop :=
  ∃ result, wf.execute eng limit world = .returned result ∧ result.success = true

/-- With enough frames, gating answers and the run is a success. -/
def CanRun (wf : Workflow) (eng : Engine σ) (world : σ) : Prop :=
  ∃ enough, ∀ limit, enough ≤ limit → Answers wf limit ∧ Succeeds wf eng limit world

/-- The key under which a node's outcome is filed, and whether its context could be built. -/
def filing (results : Results) (node : NodeConfig) : String × Bool :=
  match ContextBuilder.buildNodeContext node results with
  | .ok _ => (node.id,true)
  | .error e => (e.text,false)

def filedAt (wf : Workflow) (b : LevelStart σ) : OrderedDict String Bool :=
  .ofList ((b.nodes wf).map (filing b.state.results))

def totalsAt (wf : Workflow) (eng : Engine σ) (limit : Nat) (b : LevelStart σ) : List Nat :=
  match wf.levelPhases eng limit b with
  | none => []
  | some (levelResults,_,flowed) => totals levelResults.items flowed.totalTokens

/-- A level start from which nothing but its nodes can go wrong. -/
structure Smooth (wf : Workflow) (eng : Engine σ) (limit : Nat) (b : LevelStart σ) : Prop where
  shallow : wf.depthStop b.index = none
  returns : eng.stalls (b.nodes wf) b.state.world = false
  filed : ∀ item ∈ (filedAt wf b).items, item.2 = true
  within : ∀ total ∈ totalsAt wf eng limit b, wf.tokenStop total = none

section

variable {σ : Type} {wf : Workflow} {eng : Engine σ} {limit : Nat} {b : LevelStart σ}

/-- Gating answers on acyclic graphs and only there. -/
theorem answers_iff (wf : Workflow) {limit : Nat} (deep : wf.graph.graph.edges.length < limit) :
    Answers wf limit ↔ wf.graph.graph.Acyclic := by
  constructor
  · intro answers n cycle
    obtain ⟨u,_,edge⟩ := Relation.TransGen.tail'_iff.mp cycle
    have known : n ∈ wf.nodes.keys := (wf.listed n).mp (wf.graph.graph.closed _ edge).2
    obtain ⟨⟨answer,cache⟩,answered⟩ := Option.isSome_iff_exists.mp (answers n known .empty allActive_empty)
    have grounded : Grounded wf.graph (.empty : ActiveCache) := by
      intro id member
      simp at member
    have clear := isNodeActive_grounded wf.graph limit n .empty answer cache allActive_empty grounded answered
    exact clear.2.2.2 ⟨n,cycle,.inl rfl⟩
  · intro acyclic id _ cache all
    have low := wf.graph.graph.rank_le id
    obtain ⟨next,answered,_⟩ := isNodeActive_acyclic wf.graph acyclic (Nat.lt_of_le_of_lt low deep) cache all
    simp [answered]

theorem levelRun_totals {runs : List NodeRun} {levelResults : Results} {flows : List Attempt}
    {flowed : RunState σ} (level : LevelRun wf eng limit b runs levelResults flows flowed) :
    totalsAt wf eng limit b = totals levelResults.items flowed.totalTokens := by
  obtain ⟨gathered,phases,_⟩ := level.phases
  simp [totalsAt,phases]

/-- When node executions succeed, the level's results are filed as its contexts say. -/
theorem levelRun_filed {runs : List NodeRun} {levelResults : Results} {flows : List Attempt}
    {flowed : RunState σ} (level : LevelRun wf eng limit b runs levelResults flows flowed)
    (succeeds : ∀ node ctx w, ∃ r, (eng.executeNode node ctx w).1 = .ok r ∧ r.success = true) :
    filedAt wf b = levelResults.mapValues (·.success) := by
  rw [level.filed,← OrderedDict.ofList_mapValues,filedAt,← level.nodes,List.map_map,List.map_map]
  congr 1
  apply List.map_congr_left
  intro r member
  have ran := level.ran r member
  simp only [Function.comp_apply,filing]
  generalize r.outcome = outcome at ran ⊢
  generalize r.ending = ending at ran
  cases ran with
  | unbuilt e failed => simp [failed,fileOutcome]
  | built ctx base world made =>
    obtain ⟨result,done,success⟩ := succeeds r.node ctx world
    simp [made,done,success,fileOutcome]

/-- On an acyclic graph, and when node executions succeed, a smooth level start is one where
nothing goes wrong. -/
theorem smooth_iff (acyclic : wf.graph.graph.Acyclic) (deep : wf.graph.graph.edges.length < limit)
    (succeeds : ∀ node ctx w, ∃ r, (eng.executeNode node ctx w).1 = .ok r ∧ r.success = true)
    (all : AllActive b.state.activeCache) : Smooth wf eng limit b ↔ Untroubled wf eng limit b := by
  obtain ⟨cache,active,_⟩ := activeIds_acyclic wf.graph acyclic deep b.ids b.state.activeCache all
  have hangs : Hangs wf eng limit b ↔ wf.depthStop b.index = none ∧ eng.stalls (b.nodes wf) b.state.world = true := by
    simp [Hangs,active,LevelStart.nodes]
  rcases runLevel_cases wf eng acyclic deep b all with ⟨text,cut,_⟩ |
    ⟨shallow,⟨s,_,stalls,_⟩ | ⟨runs,levelResults,flows,flowed,level,_⟩⟩
  · constructor
    · intro smooth
      simp [smooth.shallow] at cut
    · intro calm
      simp [calm.shallow] at cut
  · constructor
    · intro smooth
      simp [smooth.returns] at stalls
    · intro calm
      exact absurd (hangs.mpr ⟨shallow,stalls⟩) calm.returns
  · obtain ⟨gathered,phases,_⟩ := level.phases
    have filed : (∀ item ∈ (filedAt wf b).items, item.2 = true) ↔
        ∀ entry ∈ levelResults.items, entry.2.success = true := by
      rw [levelRun_filed level succeeds]
      simp only [OrderedDict.mapValues,List.forall_mem_map]
    constructor
    · intro smooth
      refine ⟨shallow,?_,_,_,_,phases,filed.mp smooth.filed,levelRun_totals level ▸ smooth.within⟩
      simp [hangs,level.returns]
    · intro calm
      obtain ⟨_,_,_,found,fine,within⟩ := calm.succeeded
      rw [phases] at found
      cases found
      exact ⟨shallow,level.returns,filed.mpr fine,levelRun_totals level ▸ within⟩

theorem goOn_allActive (wf : Workflow) {s : RunState σ} (positive : AllActive s.activeCache) :
    match wf.goOn s with
    | .next t => AllActive t.activeCache
    | _ => True := by
  rcases goOn_cases wf s with next | stop
  · rw [next]
    exact positive
  · rw [stop]
    trivial

/-- On an acyclic graph the gating memo never holds a refusal. -/
theorem starts_allActive (acyclic : wf.graph.graph.Acyclic) (deep : wf.graph.graph.edges.length < limit)
    (world : σ) : ∀ start ∈ wf.starts eng limit world, AllActive start.1.state.activeCache := by
  refine (runLevels_rule (fun _ => True) (fun _ _ s => AllActive s.activeCache) (fun _ => True)
    (fun _ _ _ => trivial) ?_ wf.levels 1 (initialState world) allActive_empty fun _ _ => trivial).2
  intro b rest _ all
  simp only [levelStep]
  rcases runLevel_cases wf eng acyclic deep b all with ⟨text,_,tooDeep⟩ |
    ⟨_,⟨s,_,_,stalled⟩ | ⟨runs,levelResults,flows,flowed,level,ended⟩⟩
  · simp [tooDeep]
  · simp [stalled]
  · rcases bookEntries_cases wf levelResults.items flowed with ⟨u,did,books,_,_⟩ |
      ⟨u,text,booked,did,_,books,_⟩ | ⟨e,u,did,_⟩
    · simp only [ended,bookLevel,did]
      exact goOn_allActive wf (books.cache level.cache)
    · simp only [ended,bookLevel,did]
      exact goOn_allActive wf (books.cache level.cache)
    · simp [ended,bookLevel,did]

theorem succeeds_iff (acyclic : wf.graph.graph.Acyclic) (deep : wf.graph.graph.edges.length < limit)
    (succeeds : ∀ node ctx w, ∃ r, (eng.executeNode node ctx w).1 = .ok r ∧ r.success = true) (world : σ) :
    Succeeds wf eng limit world ↔ wf.graph.getLeafNodes ≠ [] ∧
      ∀ start ∈ wf.starts eng limit world, Smooth wf eng limit start.1 := by
  rw [Succeeds,execute_success_iff]
  refine and_congr_right fun _ => forall₂_congr fun start member => ?_
  exact (smooth_iff acyclic deep succeeds (starts_allActive acyclic deep world start member)).symm

end

/-- When every node execution succeeds, a workflow can be run exactly if its graph is acyclic, it
has a node, and with enough frames all level starts of its run are smooth. -/
theorem canRun_iff (wf : Workflow) (eng : Engine σ) (world : σ)
    (succeeds : ∀ node ctx w, ∃ r, (eng.executeNode node ctx w).1 = .ok r ∧ r.success = true) :
    CanRun wf eng world ↔ wf.graph.graph.Acyclic ∧ wf.nodes.keys ≠ [] ∧
      ∃ enough, ∀ limit, enough ≤ limit → ∀ start ∈ wf.starts eng limit world,
        Smooth wf eng limit start.1 := by
  constructor
  · rintro ⟨enough,runs⟩
    have deep : wf.graph.graph.edges.length < max enough (wf.graph.graph.edges.length + 1) := by omega
    obtain ⟨answers,success⟩ := runs _ (le_max_left enough (wf.graph.graph.edges.length + 1))
    have acyclic := (answers_iff wf deep).mp answers
    have leaves := ((succeeds_iff acyclic deep succeeds world).mp success).1
    refine ⟨acyclic,?_,max enough (wf.graph.graph.edges.length + 1),fun limit room => ?_⟩
    · intro none
      obtain ⟨leaf,member⟩ := List.exists_mem_of_ne_nil _ leaves
      have known := (wf.listed leaf).mp ((wf.graph.graph.mem_sinks leaf).mp member).1
      simp [none] at known
    · exact ((succeeds_iff acyclic (by omega) succeeds world).mp (runs limit (by omega)).2).2
  · rintro ⟨acyclic,some,enough,smooth⟩
    have leaves : wf.graph.getLeafNodes ≠ [] := by
      apply wf.graph.graph.acyclic_sinks acyclic
      obtain ⟨id,member⟩ := List.exists_mem_of_ne_nil _ some
      exact List.ne_nil_of_mem ((wf.listed id).mpr member)
    refine ⟨max enough (wf.graph.graph.edges.length + 1),fun limit room => ⟨?_,?_⟩⟩
    · exact (answers_iff wf (by omega)).mpr acyclic
    · exact (succeeds_iff acyclic (by omega) succeeds world).mpr ⟨leaves,smooth limit (by omega)⟩

/-- Without limits and without mappings there is nothing to get stuck on. -/
theorem smooth_of_plain {σ : Type} {wf : Workflow} {eng : Engine σ} (shallow : ∀ index, wf.depthStop index = none)
    (unmetered : ∀ total, wf.tokenStop total = none) (returns : ∀ nodes w, eng.stalls nodes w = false)
    (unmapped : ∀ id node, wf.nodes.get? id = some node → node.inputMappings = []) (limit : Nat)
    (b : LevelStart σ) : Smooth wf eng limit b where
  shallow := shallow b.index
  returns := returns _ _
  filed := by
    rintro ⟨key,built⟩ member
    have found := (OrderedDict.get?_eq_some _ key built).mpr member
    obtain ⟨node,inside,same⟩ := List.mem_map.mp (OrderedDict.get?_ofList _ found)
    obtain ⟨id,_,known⟩ := List.mem_filterMap.mp inside
    simp only [filing,ContextBuilder.buildNodeContext,unmapped id node known] at same
    cases same
    rfl
  within total _ := unmetered total

def obligingEngine : Engine Unit where
  executeNode _ _ w := (.ok { output := .str "ok" },w)
  currentContext _ := none
  stalls _ _ := false

/-- A node whose output two others use, and one that joins them. -/
def diamond : Workflow :=
  .ofNodes {} [{ id := "fetch",type := .tool },{ id := "audit",type := .llm,dependencies := ["fetch"] },
    { id := "draft",type := .llm,dependencies := ["fetch"] },
    { id := "publish",type := .agent,dependencies := ["audit","draft"] }] (by decide +kernel)

theorem diamond_runs : CanRun diamond obligingEngine () := by
  apply (canRun_iff diamond obligingEngine () fun _ _ _ => ⟨_,rfl,rfl⟩).mpr
  refine ⟨?_,by decide +kernel,0,fun limit _ start _ => ?_⟩
  · exact diamond.graph.graph.acyclic_of_numbering
      (fun id => if id = "fetch" then 0 else if id = "publish" then 2 else 1) (by decide +kernel)
  · apply smooth_of_plain
    · intro index
      have unlimited : diamond.depthGuard.isNone = true ∧ diamond.depthCeiling = none := by decide +kernel
      simp [depthStop,Option.isNone_iff_eq_none.mp unlimited.1,unlimited.2]
    · intro total
      have unlimited : diamond.tokenGuard.isNone = true ∧ diamond.tokenCeiling = none := by decide +kernel
      simp [tokenStop,Option.isNone_iff_eq_none.mp unlimited.1,unlimited.2]
    · exact fun _ _ => rfl
    · intro id node found
      have unmapped : ∀ item ∈ diamond.nodes.items, item.2.inputMappings.isEmpty = true := by decide +kernel
      exact List.isEmpty_iff.mp (unmapped (id,node) ((diamond.nodes.get?_eq_some id node).mp found))

/-- A negotiation between two agents: the cycle goes through a recursive node that declares
both as its sources. -/
def negotiation : Workflow :=
  .ofNodes {} [{ id := "buyer",type := .agent,dependencies := ["negotiation"] },
    { id := "seller",type := .agent },
    { id := "negotiation",type := .recursive,dependencies := ["buyer","seller"]
      recursiveSources := ["buyer","seller"] }] (by decide +kernel)

/-- The constructor accepts the negotiation, but its gating has no answer at any depth. -/
theorem negotiation_stuck :
    ¬∀ (wf : Workflow) (eng : Engine Unit),
      (∀ node ctx w, ∃ r, (eng.executeNode node ctx w).1 = .ok r ∧ r.success = true) → CanRun wf eng () := by
  intro claim
  obtain ⟨enough,runs⟩ := claim negotiation obligingEngine fun _ _ _ => ⟨_,rfl,rfl⟩
  obtain ⟨answers,_⟩ := runs _ (le_max_left enough (negotiation.graph.graph.edges.length + 1))
  have acyclic := (answers_iff negotiation (by omega)).mp answers
  have forth : negotiation.graph.graph.Edge "buyer" "negotiation" := by
    simp only [DirectedGraph.Edge]
    decide +kernel
  have back : negotiation.graph.graph.Edge "negotiation" "buyer" := by
    simp only [DirectedGraph.Edge]
    decide +kernel
  exact acyclic "buyer" (.head forth (.single back))

/-- An empty node list is accepted too, and its run looks for the first of no leaves. -/
example : (match (Workflow.ofNodes {} [] (by decide +kernel)).execute obligingEngine 3 () with
    | .raised e => some e | _ => none) = some indexError := by decide +kernel

end IceOS
