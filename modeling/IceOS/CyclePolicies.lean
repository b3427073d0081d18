import IceOS.ExceptRules
import IceOS.ListingOrder
import IceOS.SchemaValidator
import IceOS.WorkflowService

/-! The two cycle policies. `validate_blueprint` runs Kahn's algorithm over the node specifications and
knows no recursive nodes; the dependency graph of the converted nodes admits their controlled cycles. -/
namespace IceOS

open DirectedGraph (SimpleCycle)

/-! ### What conversion keeps -/

/-- The configuration classes copy the fields of the specification, and looking up the schemas of a tool
sets nothing else. -/
structure Runtime.Keeps {ω : Type} (x : Runtime ω) : Prop where
  validated : ∀ type spec node, x.modelValidate type spec = .ok node →
    node.id = spec.id ∧ node.type = type ∧ node.dependencies = spec.dependencies
  populated : ∀ node node', x.populateToolNodeSchemas node = .ok node' →
    node'.id = node.id ∧ node'.type = node.type ∧ node'.dependencies = node.dependencies

namespace Runtime

variable {ω : Type} {x : Runtime ω}

theorem Keeps.convertNodeSpec (keeps : x.Keeps) {spec : NodeSpec} {node : NodeConfig}
    (converted : x.convertNodeSpec spec = .ok node) : (node.id,node.dependencies) = (spec.id,spec.dependencies) := by
  simp only [Runtime.convertNodeSpec] at converted
  split at converted
  · cases converted
  · split at converted
    · cases converted
    · next type _ =>
      cases validated : x.modelValidate type spec with
      | error e => simp [validated,Except.mapError] at converted
      | ok node' =>
        simp only [validated,Except.mapError,Except.ok.injEq] at converted
        obtain ⟨id,_,dependencies⟩ := keeps.validated type spec node' validated
        rw [← converted,id,dependencies]

theorem Keeps.convertNodeSpecs (keeps : x.Keeps) {specs : List NodeSpec} {nodes : List NodeConfig}
    (converted : x.convertNodeSpecs specs = .ok nodes) :
    nodes.map (fun node => (node.id,node.dependencies)) = specs.map fun spec => (spec.id,spec.dependencies) := by
  obtain ⟨configs,validated,populated⟩ := ExceptRules.bind_eq_ok.mp converted
  calc nodes.map (fun node => (node.id,node.dependencies))
      = configs.map fun node => (node.id,node.dependencies) := by
        refine ExceptRules.map_of_mapM populated fun config node first => ?_
        split at first
        · obtain ⟨id,_,dependencies⟩ := keeps.populated config node first
          rw [id,dependencies]
        · cases first
          rfl
    _ = specs.map fun spec => (spec.id,spec.dependencies) :=
        ExceptRules.map_of_mapM validated fun spec node first => keeps.convertNodeSpec first

end Runtime

/-! ### The two checks -/

section

variable {nx : Networkx} {specs : List NodeSpec} {nodes : List NodeConfig}
  (kept : nodes.map (fun node => (node.id,node.dependencies)) = specs.map fun spec => (spec.id,spec.dependencies))

include kept

theorem ids_kept : nodes.map (·.id) = specs.map (·.id) := by
  have firsts := congrArg (List.map Prod.fst) kept
  rw [List.map_map,List.map_map] at firsts
  exact firsts

theorem dependsOn_kept (u v : String) : DependsOn specs u v ↔ ∃ node ∈ nodes, node.id = v ∧ u ∈ node.dependencies := by
  have listed (id : String) (deps : List String) :
      (∃ node ∈ nodes, (node.id,node.dependencies) = (id,deps)) ↔
        ∃ spec ∈ specs, (spec.id,spec.dependencies) = (id,deps) := by
    rw [← List.mem_map,← List.mem_map,kept]
  constructor
  · rintro ⟨spec,member,rfl,depends⟩
    obtain ⟨node,inside,same⟩ := (listed spec.id spec.dependencies).mpr ⟨spec,member,rfl⟩
    obtain ⟨id,dependencies⟩ := Prod.mk.inj same
    exact ⟨node,inside,id,dependencies ▸ depends⟩
  · rintro ⟨node,member,rfl,depends⟩
    obtain ⟨spec,inside,same⟩ := (listed node.id node.dependencies).mp ⟨node,member,rfl⟩
    obtain ⟨id,dependencies⟩ := Prod.mk.inj same
    exact ⟨spec,inside,id,dependencies ▸ depends⟩

theorem buildGraph_dependsOn {g : DirectedGraph String} (built : DependencyGraph.buildGraph nodes = .ok g) :
    g.Edge = DependsOn specs := by
  funext u v
  rw [DependencyGraph.buildGraph_edge_iff built,dependsOn_kept kept]

/-- Where all dependencies are nodes, the graph of the converted nodes is built, and its edges are the
dependencies of the specifications. -/
theorem buildGraph_kept (resolvable : ∀ u v, DependsOn specs u v → u ∈ specs.map (·.id)) :
    ∃ g, DependencyGraph.buildGraph nodes = .ok g ∧ g.Edge = DependsOn specs := by
  have known : ∀ node ∈ nodes, ∀ dep ∈ node.dependencies, dep ∈ nodes.map (·.id) := by
    intro node member dep depends
    rw [ids_kept kept]
    exact resolvable dep node.id ((dependsOn_kept kept dep node.id).mpr ⟨node,member,rfl,depends⟩)
  obtain ⟨g,built⟩ := DependencyGraph.buildGraph_accepts known
  exact ⟨g,built,buildGraph_dependsOn kept built⟩

end

namespace SchemaValidator

/-- Over distinct ids and resolvable dependencies the algorithm takes all nodes but for a cycle. -/
theorem validateBlueprint_circular {bp : Blueprint} {g : DirectedGraph String}
    (distinct : (bp.nodes.map (·.id)).Nodup) (resolvable : ∀ u v, DependsOn bp.nodes u v → u ∈ bp.nodes.map (·.id))
    (same : g.Edge = DependsOn bp.nodes) : validateBlueprint bp = .error .circularDependency ↔
      bp.schemaVersion ∈ supportedVersions ∧ ∃ c, SimpleCycle (DependsOn bp.nodes) c := by
  have complete : (processed bp.nodes).length = bp.nodes.length ↔ ¬∃ c, SimpleCycle (DependsOn bp.nodes) c := by
    rw [processed_length,not_exists,← same,← g.ranked_iff,same]
    constructor
    · rintro ⟨_,rank,rising⟩
      exact ⟨rank,fun u v depends => (rising u v depends).2⟩
    · rintro ⟨rank,rising⟩
      exact ⟨distinct,rank,fun u v depends => ⟨resolvable u v depends,rising u v depends⟩⟩
  by_cases supported : bp.schemaVersion ∈ supportedVersions
  · by_cases all : (processed bp.nodes).length = bp.nodes.length
    · simp [validateBlueprint,supported,all,complete.mp all]
    · simp [validateBlueprint,supported,all,not_not.mp (mt complete.mpr all)]
  · simp [validateBlueprint,supported]

end SchemaValidator

namespace DependencyGraph

/-- The graph is built, and the cycle check raises. -/
def RaisesCycle (nx : Networkx) (nodes : List NodeConfig) : Prop :=
  ∃ g, buildGraph nodes = .ok g ∧ ∃ e, checkCycles nx nodes g = .error e

theorem raisesCycle_iff {nx : Networkx} (correct : nx.Correct) {nodes : List NodeConfig} {g : DirectedGraph String}
    (built : buildGraph nodes = .ok g) :
    RaisesCycle nx nodes ↔ ∃ c, SimpleCycle g.Edge c ∧ isValidRecursiveCycle (recursiveMap nodes) c = false := by
  have raises : RaisesCycle nx nodes ↔ ¬checkCycles nx nodes g = .ok () := by
    simp only [RaisesCycle,built,Except.ok.injEq,exists_eq_left']
    cases checkCycles nx nodes g with
    | error e => simp
    | ok => simp
  rw [raises,checkCycles_iff correct]
  simp

end DependencyGraph

open DependencyGraph SchemaValidator in
/-- Both policies raise on the same nodes; and on nodes that both accept, a node comes after each of its
retained dependencies in the levels and in the order in which the nodes are processed. -/
structure PoliciesAgree (nx : Networkx) (bp : Blueprint) (nodes : List NodeConfig) : Prop where
  raise : validateBlueprint bp = .error .circularDependency ↔ RaisesCycle nx nodes
  complete : validateBlueprint bp = .ok () → (processed bp.nodes).Perm (nodes.map (·.id))
  ordered : validateBlueprint bp = .ok () → ∀ d, DependencyGraph.new nx nodes = .ok d → ∀ node ∈ nodes,
    ∀ dep ∈ keptDependencies (cutRecursiveEdges nx (recursiveIds nodes) d.graph).2 node,
      d.level dep < d.level node.id ∧ ∃ before after, processed bp.nodes = before ++ node.id :: after ∧ dep ∈ before

/-- The cycle is one that the dependency graph refuses. -/
def Uncontrolled (specs : List NodeSpec) (nodes : List NodeConfig) (c : List String) : Prop :=
  SimpleCycle (DependsOn specs) c ∧
    DependencyGraph.isValidRecursiveCycle (DependencyGraph.recursiveMap nodes) c = false

theorem policies_ordered {nx : Networkx} (correct : nx.Correct) {bp : Blueprint} {nodes : List NodeConfig}
    (kept : nodes.map (fun node => (node.id,node.dependencies)) =
      bp.nodes.map fun spec => (spec.id,spec.dependencies))
    (distinct : (bp.nodes.map (·.id)).Nodup) (accepted : SchemaValidator.validateBlueprint bp = .ok ())
    {d : DependencyGraph} (made : DependencyGraph.new nx nodes = .ok d) {node : NodeConfig} (member : node ∈ nodes)
    {dep : String} (retained : dep ∈ DependencyGraph.keptDependencies
      (DependencyGraph.cutRecursiveEdges nx (recursiveIds nodes) d.graph).2 node) :
    d.level dep < d.level node.id ∧ ∃ before after,
      SchemaValidator.processed bp.nodes = before ++ node.id :: after ∧ dep ∈ before := by
  constructor
  · exact DependencyGraph.kept_below correct (ids_kept kept ▸ distinct) made member retained
  · have all := (SchemaValidator.processed_length bp.nodes).mpr ((SchemaValidator.validateBlueprint_iff bp).mp accepted).2
    have taken : node.id ∈ SchemaValidator.processed bp.nodes := by
      rw [(SchemaValidator.processed_perm all).mem_iff,← ids_kept kept]
      exact List.mem_map_of_mem member
    obtain ⟨before,after,parts⟩ := List.append_of_mem taken
    have depends : DependsOn bp.nodes dep node.id :=
      (dependsOn_kept kept dep node.id).mpr ⟨node,member,rfl,(List.mem_filter.mp retained).1⟩
    exact ⟨before,after,parts,SchemaValidator.processed_order depends parts⟩

/-- The policies agree unless there are cycles and all of them are controlled, or cycles that only the
dependency graph gets to see, behind an unsupported version. -/
theorem cyclePolicies_agree_iff {ω : Type} (x : Runtime ω) (correct : x.networkx.Correct) (keeps : x.Keeps)
    (bp : Blueprint) (distinct : (bp.nodes.map (·.id)).Nodup)
    (resolvable : ∀ spec ∈ bp.nodes, ∀ dep ∈ spec.dependencies, dep ∈ bp.nodes.map (·.id))
    (nodes : List NodeConfig) (converted : x.convertNodeSpecs bp.nodes = .ok nodes) :
    PoliciesAgree x.networkx bp nodes ↔
      if bp.schemaVersion ∈ supportedVersions then
        (∀ c, ¬SimpleCycle (DependsOn bp.nodes) c) ∨ ∃ c, Uncontrolled bp.nodes nodes c
      else ∀ c, ¬Uncontrolled bp.nodes nodes c := by
  have kept := keeps.convertNodeSpecs converted
  have resolvable' : ∀ u v, DependsOn bp.nodes u v → u ∈ bp.nodes.map (·.id) := by
    rintro u v ⟨spec,member,_,depends⟩
    exact resolvable spec member u depends
  obtain ⟨g,built,same⟩ := buildGraph_kept kept resolvable'
  have raise : (SchemaValidator.validateBlueprint bp = .error .circularDependency ↔
      DependencyGraph.RaisesCycle x.networkx nodes) ↔
        ((bp.schemaVersion ∈ supportedVersions ∧ ∃ c, SimpleCycle (DependsOn bp.nodes) c) ↔
          ∃ c, Uncontrolled bp.nodes nodes c) := by
    rw [SchemaValidator.validateBlueprint_circular distinct resolvable' same,
      DependencyGraph.raisesCycle_iff correct built,same]
    rfl
  have cyclic : (∃ c, Uncontrolled bp.nodes nodes c) → ∃ c, SimpleCycle (DependsOn bp.nodes) c :=
    fun ⟨c,refused⟩ => ⟨c,refused.1⟩
  have agree : PoliciesAgree x.networkx bp nodes ↔ (SchemaValidator.validateBlueprint bp = .error .circularDependency ↔
      DependencyGraph.RaisesCycle x.networkx nodes) := by
    constructor
    · intro agree
      exact agree.raise
    · intro raise
      refine ⟨raise,fun accepted => ?_,fun accepted d made node member dep retained => ?_⟩
      · rw [ids_kept kept]
        exact SchemaValidator.processed_perm ((SchemaValidator.processed_length bp.nodes).mpr
          ((SchemaValidator.validateBlueprint_iff bp).mp accepted).2)
      · exact policies_ordered correct kept distinct accepted made member retained
  rw [agree,raise]
  by_cases supported : bp.schemaVersion ∈ supportedVersions
  · rw [if_pos supported,← not_exists,← imp_iff_not_or]
    constructor
    · intro both cycle
      exact both.mp ⟨supported,cycle⟩
    · intro uncontrolled
      exact ⟨fun both => uncontrolled both.2,fun refused => ⟨supported,cyclic refused⟩⟩
  · simp only [supported,false_and,if_false,false_iff,not_exists]

def agentConfig (package : String) : String :=
  "\x7b\"package\": \"" ++ package ++ "\", \"llm_config\": \x7b\"model\": \"gpt-4o\"\x7d\x7d"

def negotiationBlueprint : Blueprint where
  blueprintId := "bp_negotiation"
  nodes :=
    [{ id := "buyer",type := "agent",dependencies := ["negotiation"],config := agentConfig "agents.buyer" },
     { id := "seller",type := "agent",config := agentConfig "agents.seller" },
     { id := "negotiation",type := "recursive",dependencies := ["buyer","seller"]
       config := "\x7b\"agent_package\": \"agents.negotiator\", " ++
         "\"recursive_sources\": [\"buyer\", \"seller\"]\x7d" }]

/-- Nothing is refused, and recursive nodes declare `buyer` and `seller`. -/
def negotiationRuntime : Runtime Unit where
  networkx := .direct
  modelValidate type spec := .ok
    { id := spec.id,type,dependencies := spec.dependencies
      recursiveSources := if type = .recursive then ["buyer","seller"] else [] }
  populateToolNodeSchemas := .ok
  validateNodeToolAccess _ := .ok ()
  validateSchemaAlignment _ := .ok ()
  maxTokens := none
  maxDepth := none
  enforcer := { maximum := budgetDefaults,failClosed := true }
  executors :=
    { runtimeValidate _ := none
      executor _ _ w := (.result {},w)
      coerce _ v := .ok v
      persist _ _ w := (none,w)
      isOutputValid _ _ := true }
  stalls _ _ := false
  newSession _ := ("s","t")
  dump _ := none

theorem negotiationRuntime_keeps : negotiationRuntime.Keeps where
  validated type spec node validated := by
    cases validated
    exact ⟨rfl,rfl,rfl⟩
  populated node node' populated := by
    cases populated
    exact ⟨rfl,rfl,rfl⟩

theorem negotiation_agree_iff : PoliciesAgree .direct negotiationBlueprint negotiationNodes ↔
    if negotiationBlueprint.schemaVersion ∈ supportedVersions then
      (∀ c, ¬SimpleCycle (DependsOn negotiationBlueprint.nodes) c) ∨
        ∃ c, Uncontrolled negotiationBlueprint.nodes negotiationNodes c
    else ∀ c, ¬Uncontrolled negotiationBlueprint.nodes negotiationNodes c :=
  cyclePolicies_agree_iff negotiationRuntime Networkx.direct_correct negotiationRuntime_keeps negotiationBlueprint
    (by decide) (by decide) negotiationNodes rfl

/-- The agents and their negotiation depend on each other: the dependency graph accepts the cycle through
the recursive node, and `validate_blueprint` refuses it. -/
theorem negotiation_disputed : ¬∀ (x : Runtime Unit) (bp : Blueprint) (nodes : List NodeConfig),
    x.networkx.Correct → x.Keeps → (bp.nodes.map (·.id)).Nodup →
      (∀ spec ∈ bp.nodes, ∀ dep ∈ spec.dependencies, dep ∈ bp.nodes.map (·.id)) →
        x.convertNodeSpecs bp.nodes = .ok nodes → PoliciesAgree x.networkx bp nodes := by
  intro claim
  have agree := claim negotiationRuntime negotiationBlueprint negotiationNodes Networkx.direct_correct
    negotiationRuntime_keeps (by decide) (by decide) rfl
  have refused : SchemaValidator.validateBlueprint negotiationBlueprint = .error .circularDependency := by
    decide +kernel
  obtain ⟨g,built,e,raised⟩ := agree.raise.mp refused
  obtain ⟨d,made⟩ := negotiation_accepted
  have same : d.graph = g := Except.ok.inj ((DependencyGraph.new_eq_ok made).1.symm.trans built)
  have checked := DependencyGraph.new_checked made
  rw [same] at checked
  cases checked.symm.trans raised

end IceOS
