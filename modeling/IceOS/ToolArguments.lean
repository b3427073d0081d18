import IceOS.ExceptRules
import IceOS.ToolExecutor

/-! What decides between a tool node's own arguments and the context it runs in. -/
namespace IceOS

/-! ### Where the values of a context come from -/

/-- The value that a mapping puts under its placeholder. -/
def mappedValue (results : Results) (entry : String × InputMapping) : Option (String × Value) :=
  match entry.2 with
  | .literal value => some (entry.1,value)
  | .reference (some dep) (some key) =>
    match results.get? dep with
    | some { success := true,output,.. } =>
      (ContextBuilder.resolveNestedPath output key).toOption.map (entry.1,·)
    | _ => none
  | .reference _ _ => none

/-- The output under which a dependency is visible. -/
def exposedOutput (results : Results) (dep : String) : Option Value :=
  match results.get? dep with
  | some { success := true,output,.. } => if output.isNone then none else some output
  | _ => none

/-- The metadata of the session, and below it the user inputs. -/
def sessionValue (current : Option GraphContext) (key : String) : Option Value :=
  match current with
  | none => none
  | some { metadata,.. } =>
    ((OrderedDict.ofList metadata).get? key).or
      (match metadata.lookup "inputs" with
        | some (.dict inputs) => (OrderedDict.ofList inputs).get? key
        | _ => none)

/-- Mappings come first, then dependencies, then the session. -/
def ambient (current : Option GraphContext) (node : NodeConfig) (results : Results) (key : String) : Option Value :=
  ((OrderedDict.ofList (node.inputMappings.filterMap (mappedValue results))).get? key).or
    ((if key ∈ node.dependencies then exposedOutput results key else none).or (sessionValue current key))

theorem placeMapping_clean {results : Results} {draft next : ContextBuilder.Draft} {entry : String × InputMapping}
    (placed : ContextBuilder.placeMapping results draft entry = .ok next) (clean : next.2 = []) :
    draft.2 = [] ∧ ∃ value, mappedValue results entry = some (entry.1,value) ∧ next.1 = draft.1.set entry.1 value := by
  obtain ⟨placeholder,mapping⟩ := entry
  cases mapping with
  | literal value =>
    cases placed
    exact ⟨clean,value,rfl,rfl⟩
  | reference dep key =>
    simp only [ContextBuilder.placeMapping,ContextBuilder.placeReference] at placed
    split at placed
    · next dep key =>
      split at placed
      · next output _ found =>
        split at placed
        · next value resolved =>
          cases placed
          refine ⟨clean,value,?_,rfl⟩
          simp [mappedValue,found,resolved,Except.toOption]
        · cases placed
          simp at clean
        · cases placed
      · cases placed
        simp at clean
    · cases placed
      simp at clean

theorem placeMappings_clean {results : Results} (entries : List (String × InputMapping))
    {draft next : ContextBuilder.Draft}
    (placed : entries.foldlM (ContextBuilder.placeMapping results) draft = .ok next) (clean : next.2 = []) :
    draft.2 = [] ∧ next.1 = draft.1.update (entries.filterMap (mappedValue results)) := by
  induction entries generalizing draft with
  | nil =>
    cases placed
    exact ⟨clean,rfl⟩
  | cons entry rest ih =>
    rw [List.foldlM_cons] at placed
    cases first : ContextBuilder.placeMapping results draft entry with
    | error e =>
      rw [first] at placed
      cases placed
    | ok middle =>
      rw [first] at placed
      obtain ⟨clean,later⟩ := ih placed
      obtain ⟨before,value,mapped,set⟩ := placeMapping_clean first clean
      refine ⟨before,later.trans ?_⟩
      rw [List.filterMap_cons_some mapped,set]
      rfl

theorem builder_context {node : NodeConfig} {results : Results} {ctx : Context}
    (built : ContextBuilder.buildNodeContext node results = .ok ctx) :
    ctx = .ofList (node.inputMappings.filterMap (mappedValue results)) := by
  simp only [ContextBuilder.buildNodeContext] at built
  cases placed : node.inputMappings.foldlM (ContextBuilder.placeMapping results) (.empty,[]) with
  | error e =>
    rw [placed] at built
    cases built
  | ok next =>
    rw [placed] at built
    simp only [bind,Except.bind] at built
    split at built
    · next clean =>
      cases built
      exact (placeMappings_clean _ placed (List.isEmpty_iff.mp clean)).2
    · cases built

theorem exposeDependency_get? (results : Results) (ctx : Context) (dep key : String) :
    (exposeDependency results ctx dep).get? key =
      (ctx.get? key).or (if dep = key then exposedOutput results dep else none) := by
  simp only [exposeDependency,exposedOutput]
  cases results.get? dep with
  | none => simp
  | some result =>
    obtain ⟨success,error,output,usage⟩ := result
    cases success with
    | false => simp
    | true =>
      by_cases nothing : output.isNone
      · simp [nothing]
      · simpa [nothing] using ctx.get?_setDefault dep key output

theorem exposeDependencies_get? (results : Results) (deps : List String) (ctx : Context) (key : String) :
    (deps.foldl (exposeDependency results) ctx).get? key =
      (ctx.get? key).or (if key ∈ deps then exposedOutput results key else none) := by
  induction deps generalizing ctx with
  | nil => simp
  | cons dep rest ih =>
    rw [List.foldl_cons,ih,exposeDependency_get?,Option.or_assoc]
    congr 1
    by_cases same : dep = key
    · subst same
      by_cases later : dep ∈ rest <;> simp [later]
    · simp [same,Ne.symm same]

theorem injectMetadata_get? (current : Option GraphContext) (ctx : Context) (key : String) :
    (injectMetadata current ctx).get? key = (ctx.get? key).or (sessionValue current key) := by
  cases current with
  | none => simp [injectMetadata,sessionValue]
  | some graph =>
    obtain ⟨sessionId,metadata,executionId⟩ := graph
    cases metadata with
    | nil => simp [injectMetadata,sessionValue,OrderedDict.ofList,OrderedDict.update]
    | cons entry rest =>
      simp only [injectMetadata,sessionValue]
      generalize entry :: rest = metadata
      cases found : metadata.lookup "inputs" with
      | none => simp only [OrderedDict.get?_update_items,Option.or_none]
      | some value =>
        cases value with
        | dict inputs =>
          dsimp only
          rw [OrderedDict.get?_update_items,OrderedDict.get?_update_ofList,OrderedDict.get?_update_ofList,
            OrderedDict.get?_set,OrderedDict.get?_empty]
          by_cases same : "inputs" = key
          · -- the metadata has the key itself, so the copy below it does not show
            subst same
            have held : "inputs" ∈ (OrderedDict.ofList metadata).keys := by
              obtain ⟨entry,inside,same⟩ := List.lookup_isSome_iff.mp (Option.isSome_iff_exists.mpr ⟨_,found⟩)
              rw [OrderedDict.mem_keys_ofList]
              exact List.mem_map.mpr ⟨entry,inside,(beq_iff_eq.mp same).symm⟩
            obtain ⟨value,shown⟩ := Option.isSome_iff_exists.mp ((OrderedDict.mem_keys _ _).mp held)
            rw [shown,Option.some_or,Option.some_or]
          · rw [if_neg same,Option.or_none]
        | none | bool | int | str | list | other => simp only [OrderedDict.get?_update_items,Option.or_none]

/-- Which source a key of a node's context comes from. -/
theorem buildNodeContext_get? {current : Option GraphContext} {node : NodeConfig} {results : Results} {ctx : Context}
    (built : buildNodeContext current node results = .ok ctx) (key : String) :
    ctx.get? key = ambient current node results key := by
  simp only [buildNodeContext] at built
  cases mapped : ContextBuilder.buildNodeContext node results with
  | error e =>
    rw [mapped] at built
    cases built
  | ok base =>
    rw [mapped] at built
    cases built
    rw [injectMetadata_get?,exposeDependencies_get?,builder_context mapped,Option.or_assoc]
    rfl

/-! ### What the tool receives -/

theorem resolveEntries_keys {render : String → Except Exn String} {entries resolved : List (String × Value)}
    (ok : resolveEntries render entries = .ok resolved) : resolved.map Prod.fst = entries.map Prod.fst := by
  induction entries generalizing resolved with
  | nil =>
    cases ok
    rfl
  | cons entry rest ih =>
    obtain ⟨key,value⟩ := entry
    rw [resolveEntries] at ok
    obtain ⟨value',_,ok⟩ := ExceptRules.bind_eq_ok.mp ok
    obtain ⟨rest',later,ok⟩ := ExceptRules.bind_eq_ok.mp ok
    cases ok
    simp [ih later]

/-- Rendering the templates changes no key. -/
theorem resolveJinjaTemplates_keys {render : Option (String → Context → Except Exn String)} {data ctx resolved : Context}
    (ok : resolveJinjaTemplates render data ctx = .ok resolved) (key : String) :
    key ∈ resolved.keys ↔ key ∈ data.keys := by
  cases render with
  | none =>
    cases ok
    rfl
  | some render =>
    simp only [resolveJinjaTemplates] at ok
    obtain ⟨entries,went,same⟩ := ExceptRules.map_eq_ok.mp ok
    cases same
    rw [OrderedDict.mem_keys_ofList,resolveEntries_keys went]
    rfl

/-- Flattening fills gaps only. -/
theorem flattenDependencyOutputs_get? (expected : List String) {merged : Context} {key : String} {value : Value}
    (present : merged.get? key = some value) :
    (flattenDependencyOutputs expected merged).get? key = some value := by
  unfold flattenDependencyOutputs
  refine List.foldlRecOn (motive := fun d : Context => d.get? key = some value) _ _ present fun flattened shown entry _ => ?_
  split
  · refine List.foldlRecOn (motive := fun d : Context => d.get? key = some value) _ _ shown fun flattened shown param _ => ?_
    split
    · rw [OrderedDict.get?_setDefault,shown,Option.some_or]
    · exact shown
  · exact shown

/-- Under a key of the node's own arguments a tool receives what the context has there, if anything. -/
theorem Tool.safeInputs_get? {ω : Type} (tool : Tool ω) {resolvedToolArgs ctx : Context} {key : String}
    (own : key ∈ resolvedToolArgs.keys) :
    (tool.safeInputs resolvedToolArgs ctx).get? key =
      if tool.Accepts key then (ctx.get? key).or (resolvedToolArgs.get? key) else none := by
  obtain ⟨value,set⟩ := Option.isSome_iff_exists.mp ((OrderedDict.mem_keys _ _).mp own)
  have merged : (resolvedToolArgs.update ctx.items).get? key = some ((ctx.get? key).getD value) := by
    rw [OrderedDict.get?_update_items,set]
    cases ctx.get? key <;> rfl
  have flattened := flattenDependencyOutputs_get? tool.accepted merged
  rw [OrderedDict.get?_update_items] at merged
  by_cases everything : tool.accepted = []
  · simp only [safeInputs,everything,if_true,Accepts,true_or] at flattened ⊢
    rw [flattened,merged]
  · simp only [safeInputs,everything,if_false,Accepts,false_or,OrderedDict.get?_restrict]
    rw [flattened,merged]

/-- A node's own argument reaches the tool where the tool takes the key and no source of the context
has another value for it. The first half leaves aside the keys that the tool does not take. -/
theorem toolArgs_win_iff {ω : Type} (rt : ToolRuntime ω) (current : Option GraphContext) (node : NodeConfig)
    (results : Results) {ctx resolvedToolArgs args : Context} {tool : Tool ω}
    (built : buildNodeContext current node results = .ok ctx)
    (resolved : resolveJinjaTemplates rt.render (rt.settings node).toolArgs ctx = .ok resolvedToolArgs)
    (received : rt.arguments node ctx = .ok (tool,args)) :
    ((∀ key ∈ (rt.settings node).toolArgs.keys, (args.get? key).isSome → args.get? key = resolvedToolArgs.get? key) ↔
      ∀ key ∈ (rt.settings node).toolArgs.keys, tool.Accepts key →
        ∀ value ∈ ambient current node results key, resolvedToolArgs.get? key = some value) ∧
    ((∀ key ∈ (rt.settings node).toolArgs.keys, args.get? key = resolvedToolArgs.get? key) ↔
      ∀ key ∈ (rt.settings node).toolArgs.keys, tool.Accepts key ∧
        ∀ value ∈ ambient current node results key, resolvedToolArgs.get? key = some value) := by
  have given : args = tool.safeInputs resolvedToolArgs ctx := by
    simp only [ToolRuntime.arguments,resolved] at received
    obtain ⟨found,_,received⟩ := ExceptRules.bind_eq_ok.mp received
    cases received
    rfl
  have shown (key : String) (own : key ∈ (rt.settings node).toolArgs.keys) : args.get? key =
      if tool.Accepts key then (ambient current node results key).or (resolvedToolArgs.get? key) else none := by
    rw [given,tool.safeInputs_get? ((resolveJinjaTemplates_keys resolved key).mpr own),buildNodeContext_get? built]
  have rendered (key : String) (own : key ∈ (rt.settings node).toolArgs.keys) :
      ∃ value, resolvedToolArgs.get? key = some value :=
    Option.isSome_iff_exists.mp ((OrderedDict.mem_keys _ _).mp ((resolveJinjaTemplates_keys resolved key).mpr own))
  have taken (key : String) (own : key ∈ (rt.settings node).toolArgs.keys) (takes : tool.Accepts key) :
      (args.get? key).isSome ∧ (args.get? key = resolvedToolArgs.get? key ↔
        ∀ value ∈ ambient current node results key, resolvedToolArgs.get? key = some value) := by
    obtain ⟨value,set⟩ := rendered key own
    rw [shown key own,if_pos takes,set]
    cases ambient current node results key with
    | none => simp
    | some other => simp [eq_comm]
  have refused (key : String) (own : key ∈ (rt.settings node).toolArgs.keys) (takes : ¬tool.Accepts key) :
      args.get? key = none ∧ args.get? key ≠ resolvedToolArgs.get? key := by
    obtain ⟨value,set⟩ := rendered key own
    rw [shown key own,if_neg takes,set]
    exact ⟨rfl,nofun⟩
  constructor
  · refine forall₂_congr fun key own => ?_
    by_cases takes : tool.Accepts key
    · obtain ⟨present,wins⟩ := taken key own takes
      simp only [present,takes,true_implies,wins]
    · simp [(refused key own takes).1,takes]
  · refine forall₂_congr fun key own => ?_
    by_cases takes : tool.Accepts key
    · simp only [takes,true_and,(taken key own takes).2]
    · simp only [takes,false_and,(refused key own takes).2]

/-! ### A search tool with a fixed query -/

def searchTool : Tool Unit where
  parameters := ["query"]
  execute args w := (.value (.dict args.items),w)

def fixedQuery : Context := OrderedDict.empty.set "query" (.str "fixed")

/-- Templates cannot be rendered here; there are none. -/
def searching : ToolRuntime Unit where
  tool _ := .ok searchTool
  render := some fun _ _ => .error (keyError "template")
  settings _ := { toolName := "search",toolArgs := fixedQuery }

def searchNode : NodeConfig := { id := "find",type := .tool }

/-- A session whose user inputs are these. -/
def sessionWith (inputs : List (String × Value)) : GraphContext :=
  { sessionId := "session",metadata := [("inputs",.dict inputs)] }

theorem search_fixed :
    ∃ ctx args, buildNodeContext (some (sessionWith [("topic",.str "anything")])) searchNode .empty = .ok ctx ∧
      searching.arguments searchNode ctx = .ok (searchTool,args) ∧
      ∀ key ∈ fixedQuery.keys, args.get? key = fixedQuery.get? key := by
  refine ⟨_,_,rfl,rfl,?_⟩
  refine (toolArgs_win_iff searching (some (sessionWith [("topic",.str "anything")])) searchNode .empty rfl rfl rfl).2.mpr ?_
  intro key own
  have only : key = "query" := by simpa [searching,fixedQuery] using own
  cases only
  exact ⟨by decide,fun value found => by cases found⟩

/-- A user input of the same name replaces the argument that the blueprint fixed. -/
theorem search_replaced :
    ∃ ctx args, buildNodeContext (some (sessionWith [("query",.str "other")])) searchNode .empty = .ok ctx ∧
      searching.arguments searchNode ctx = .ok (searchTool,args) ∧ fixedQuery.get? "query" = some (.str "fixed") ∧
      args.get? "query" = some (.str "other") ∧ args.get? "query" ≠ fixedQuery.get? "query" := by
  refine ⟨_,_,rfl,rfl,rfl,rfl,fun same => ?_⟩
  have texts : some (Value.str "other") = some (.str "fixed") := same
  simp at texts

end IceOS
