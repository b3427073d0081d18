import IceOS.PrefixCodes
import IceOS.StoredBlueprints

/-! Blueprint ids under MCP. The hash that becomes the id is taken of the whole document, the id that was
sent or drawn for it included. -/
namespace IceOS

open ActionRuns ExceptRules

/-- A blueprint as it is sent; a missing id is drawn. -/
structure BlueprintPayload where
  blueprintId : Option String := none
  schemaVersion : String := "1.2.0"
  nodes : List NodeSpec
  metadata : String := ""
  deriving DecidableEq, Repr

/-- Same nodes, metadata and schema version. -/
structure BlueprintPayload.SameContent (p q : BlueprintPayload) : Prop where
  schemaVersion : p.schemaVersion = q.schemaVersion
  nodes : p.nodes = q.nodes
  metadata : p.metadata = q.metadata

/-- What the model makes of the payload. -/
def BlueprintPayload.document (p : BlueprintPayload) (c : Circumstances) : Blueprint where
  blueprintId := p.blueprintId.getD c.newId
  schemaVersion := p.schemaVersion
  nodes := p.nodes
  metadata := p.metadata

/-- The JSON of a blueprint, and the first twelve digits of the SHA-256 of a text. -/
structure ContentHash where
  modelDumpJson : Blueprint → String
  hexdigest : String → String

namespace ContentHash

def contentId (h : ContentHash) (bp : Blueprint) : String := "bp_" ++ h.hexdigest (h.modelDumpJson bp)

/-- Different blueprints have different JSON, and different texts different digests. -/
structure Injective (h : ContentHash) : Prop where
  modelDumpJson : Function.Injective h.modelDumpJson
  hexdigest : Function.Injective h.hexdigest

theorem contentId_injective {h : ContentHash} (injective : h.Injective) : Function.Injective h.contentId := by
  intro a b same
  apply injective.modelDumpJson
  apply injective.hexdigest
  exact (String.append_right_inj "bp_").mp same

end ContentHash

def BlueprintRoutes.hashing (x : BlueprintRoutes) (h : ContentHash) : BlueprintRoutes :=
  { x with contentId := h.contentId }

/-- A request to MCP, or whatever a route for partial blueprints leaves under an id. -/
inductive McpRequest where
  | create (payload : BlueprintPayload)
  | finalize (id : String) (versionLock : Option String)
  | edit (id : String) (content : PartialBlueprint) (lock : String)

def McpRequest.write (c : Circumstances) : McpRequest → WriteRequest
  | .create payload => .mcpCreate (payload.document c)
  | .finalize id versionLock => .finalize id versionLock
  | .edit id content lock => .edit id content lock

namespace BlueprintStore

/-- `create_blueprint` of MCP with its acknowledgement. -/
def acknowledgeBlueprint (x : BlueprintRoutes) (c : Circumstances) (payload : BlueprintPayload) (s : BlueprintStore) :
    Except Nat (String × BlueprintStore) := do
  let bp := payload.document c
  let s ← s.mcpCreateBlueprint x c bp
  return (x.contentId bp,s)

/-- `get_blueprint`: the document and the content id computed from it. -/
def getBlueprint (x : BlueprintRoutes) (s : BlueprintStore) (id : String) : Except Nat (Blueprint × String) :=
  match s.cache.get? id with
  | none => .error 404
  | some bp => if bp.validates then .ok (bp,x.contentId bp) else .error 500

def mcpStep (x : BlueprintRoutes) (s : BlueprintStore) (a : McpRequest × Circumstances) : Option BlueprintStore :=
  s.step x (a.1.write a.2,a.2)

/-- The blueprint whose hash becomes an id. -/
def submitted (s : BlueprintStore) (a : McpRequest × Circumstances) : Option Blueprint :=
  match a.1 with
  | .create payload => some (payload.document a.2)
  | .finalize id _ => (s.partials.get? id).bind fun entry => entry.1.toBlueprint
  | .edit _ _ _ => none

/-- What is read under an id has it as its content id. -/
def Addressed (x : BlueprintRoutes) (s : BlueprintStore) : Prop :=
  ∀ id bp contentId, s.getBlueprint x id = .ok (bp,contentId) → contentId = id

/-- The blueprint came with its own content id. -/
def Labelled (x : BlueprintRoutes) (s : BlueprintStore) (a : McpRequest × Circumstances) : Prop :=
  ∀ bp, s.submitted a = some bp → bp.blueprintId = x.contentId bp

variable {x : BlueprintRoutes} {s t : BlueprintStore} {c : Circumstances}

theorem getBlueprint_eq_ok {id contentId : String} {bp : Blueprint} :
    s.getBlueprint x id = .ok (bp,contentId) ↔
      s.cache.get? id = some bp ∧ bp.validates = true ∧ x.contentId bp = contentId := by
  simp only [getBlueprint]
  cases s.cache.get? id with
  | none => simp
  | some other =>
    constructor
    · intro found
      dsimp only at found
      split at found
      · next valid =>
        cases found
        exact ⟨rfl,valid,rfl⟩
      · cases found
    · rintro ⟨same,valid,rfl⟩
      cases same
      simp only [valid,if_true]

theorem toBlueprint_validates {draft : PartialBlueprint} {bp : Blueprint} (converted : draft.toBlueprint = some bp) :
    bp.validates = true := by
  simp only [PartialBlueprint.toBlueprint] at converted
  split at converted
  · next complete =>
    cases converted
    exact (Bool.and_eq_true _ _ ▸ complete).2
  · cases converted

theorem mcpCreateBlueprint_validates {payload : Blueprint} (handled : s.mcpCreateBlueprint x c payload = .ok t) :
    payload.validates = true := by
  simp only [mcpCreateBlueprint,bind_eq_ok,refuseIf_eq_ok,Bool.not_eq_false'] at handled
  exact handled.choose_spec.1

/-- A request registers the submitted blueprint, if any, under its content id. -/
theorem mcpStep_cache {a : McpRequest × Circumstances} (stepped : s.mcpStep x a = some t) :
    (s.submitted a = none ∧ t.cache = s.cache) ∨
    ∃ bp, s.submitted a = some bp ∧ bp.validates = true ∧
      t.cache = s.cache.set (x.contentId bp) { bp with blueprintId := x.contentId bp } := by
  obtain ⟨r,c⟩ := a
  have handled : s.handle x c (r.write c) = .ok t := toOption_eq_some.mp stepped
  cases r with
  | create payload =>
    right
    refine ⟨payload.document c,rfl,mcpCreateBlueprint_validates handled,?_⟩
    rw [register_ok (mcpCreateBlueprint_ok handled).2]
  | finalize id versionLock =>
    obtain ⟨draft,lock,bp,u,found,converted,_,registered,rfl⟩ := finalizePartialBlueprint_ok handled
    right
    refine ⟨bp,?_,toBlueprint_validates converted,?_⟩
    · simp only [submitted,found,Option.bind_some,converted]
    · rw [register_ok registered]
  | edit id content lock =>
    cases handled
    exact .inl ⟨rfl,rfl⟩

/-- The id is written into the document after hashing, so it is the hash of the document only if it was there
before. -/
theorem relabelled_iff (injective : Function.Injective x.contentId) (bp : Blueprint) :
    x.contentId { bp with blueprintId := x.contentId bp } = x.contentId bp ↔ bp.blueprintId = x.contentId bp := by
  constructor
  · intro same
    exact (congrArg Blueprint.blueprintId (injective same)).symm
  · intro same
    rw [← same]
    exact same.symm

theorem mcpStep_addressed_iff (injective : Function.Injective x.contentId) (s : BlueprintStore)
    (a : McpRequest × Circumstances) (t : BlueprintStore) (addressed : s.Addressed x)
    (stepped : s.mcpStep x a = some t) : t.Addressed x ↔ s.Labelled x a := by
  rcases mcpStep_cache stepped with ⟨nothing,kept⟩ | ⟨bp,submits,valid,cached⟩
  · refine ⟨fun _ bp submits => ?_,fun _ id bp contentId found => ?_⟩
    · cases nothing.symm.trans submits
    · rw [getBlueprint_eq_ok,kept,← getBlueprint_eq_ok] at found
      exact addressed id bp contentId found
  · have labelled : s.Labelled x a ↔ bp.blueprintId = x.contentId bp := by
      simp only [Labelled,submits,Option.some.injEq,forall_eq']
    rw [labelled,← relabelled_iff injective]
    constructor
    · intro holds
      have stored : t.cache.get? (x.contentId bp) = some { bp with blueprintId := x.contentId bp } := by
        rw [cached,OrderedDict.get?_set_same]
      exact holds _ _ _ (getBlueprint_eq_ok.mpr ⟨stored,valid,rfl⟩)
    · intro same id other contentId found
      obtain ⟨stored,valid',rfl⟩ := getBlueprint_eq_ok.mp found
      rw [cached,OrderedDict.get?_set] at stored
      split at stored
      · next here =>
        cases stored
        exact same.trans here
      · exact addressed id other _ (getBlueprint_eq_ok.mpr ⟨stored,valid',rfl⟩)

theorem acknowledgeBlueprint_ok {payload : BlueprintPayload} {id : String}
    (handled : s.acknowledgeBlueprint x c payload = .ok (id,t)) :
    s.mcpCreateBlueprint x c (payload.document c) = .ok t ∧ id = x.contentId (payload.document c) := by
  simp only [acknowledgeBlueprint,bind_eq_ok] at handled
  obtain ⟨u,created,acknowledged⟩ := handled
  cases acknowledged
  exact ⟨created,rfl⟩

theorem document_eq_iff {p q : BlueprintPayload} (same : p.SameContent q) (c d : Circumstances) :
    p.document c = q.document d ↔ p.blueprintId.getD c.newId = q.blueprintId.getD d.newId := by
  simp only [BlueprintPayload.document,same.schemaVersion,same.nodes,same.metadata,Blueprint.mk.injEq,and_true]

end BlueprintStore

/-- Payloads of one content are acknowledged with one id exactly if they bring, or are given, the same id. And all
along a sequence of requests the content id of every stored blueprint is the id it is stored under exactly if
every blueprint comes labelled with its own content id. -/
theorem contentIds_iff (x : BlueprintRoutes) (h : ContentHash) (injective : h.Injective) :
    (∀ (p q : BlueprintPayload) (c d : Circumstances) (s s' t t' : BlueprintStore) (i j : String), p.SameContent q →
      s.acknowledgeBlueprint (x.hashing h) c p = .ok (i,s') → t.acknowledgeBlueprint (x.hashing h) d q = .ok (j,t') →
        (i = j ↔ p.blueprintId.getD c.newId = q.blueprintId.getD d.newId)) ∧
    ∀ requests s, run (BlueprintStore.mcpStep (x.hashing h)) requests {} = some s →
      ((∀ first rest t, requests = first ++ rest → run (BlueprintStore.mcpStep (x.hashing h)) first {} = some t →
        t.Addressed (x.hashing h)) ↔
        Throughout (BlueprintStore.mcpStep (x.hashing h)) (BlueprintStore.Labelled (x.hashing h)) requests {}) := by
  have contentId : Function.Injective (x.hashing h).contentId := ContentHash.contentId_injective injective
  constructor
  · intro p q c d s s' t t' i j same first second
    obtain ⟨_,rfl⟩ := BlueprintStore.acknowledgeBlueprint_ok first
    obtain ⟨_,rfl⟩ := BlueprintStore.acknowledgeBlueprint_ok second
    rw [contentId.eq_iff]
    exact BlueprintStore.document_eq_iff same c d
  · intro requests s succeed
    refine throughout_iff (BlueprintStore.mcpStep_addressed_iff contentId) succeed ?_
    intro id bp contentId found
    cases (BlueprintStore.getBlueprint_eq_ok.mp found).1

/-! ### A hash that is injective -/

open PrefixCodes in
def specCode (node : NodeSpec) : List Char :=
  pair string (pair string (pair (list string) (pair bool (pair (option string) string))))
    (node.id,node.type,node.dependencies,node.memoryAware,node.prompt,node.config)

open PrefixCodes in
def blueprintCode (bp : Blueprint) : List Char :=
  pair string (pair string (pair (list specCode) string)) (bp.blueprintId,bp.schemaVersion,bp.nodes,bp.metadata)

open PrefixCodes in
theorem specCode_separates : Separates specCode := by
  refine comp_separates (pair_separates string_separates (pair_separates string_separates
    (pair_separates (list_separates string_separates) (pair_separates bool_separates
      (pair_separates (option_separates string_separates) string_separates))))) ?_
  intro a b same
  cases a
  cases b
  cases same
  rfl

open PrefixCodes in
theorem blueprintCode_separates : Separates blueprintCode := by
  refine comp_separates (pair_separates string_separates (pair_separates string_separates
    (pair_separates (list_separates specCode_separates) string_separates))) ?_
  intro a b same
  cases a
  cases b
  cases same
  rfl

/-- The digest of a text is the text. -/
def plainHash : ContentHash where
  modelDumpJson bp := String.ofList (blueprintCode bp)
  hexdigest text := text

theorem plainHash_injective : plainHash.Injective where
  modelDumpJson := PrefixCodes.injective blueprintCode_separates
  hexdigest := Function.injective_id

def unlabelled : BlueprintPayload where
  nodes := [{ id := "draft",type := "tool" }]

/-- One blueprint that is sent twice without an id. -/
def resending : List (McpRequest × Circumstances) :=
  [(.create unlabelled,{ newId := "bp_1" }),(.create unlabelled,{ newId := "bp_2" })]

theorem unlabelled_acknowledged (c : Circumstances) (written : c.cacheWrite = true) :
    ∃ s, BlueprintStore.acknowledgeBlueprint (plainRoutes.hashing plainHash) c unlabelled {} =
      .ok (plainHash.contentId (unlabelled.document c),s) := by
  have accepted : SchemaValidator.validateBlueprint (unlabelled.document c) = .ok () := rfl
  have valid : (unlabelled.document c).validates = true := rfl
  have runs : (plainRoutes.hashing plainHash).raisesAtRuntime (unlabelled.document c).nodes = false := rfl
  simp only [BlueprintStore.acknowledgeBlueprint,BlueprintStore.mcpCreateBlueprint,BlueprintStore.register,accepted,
    valid,runs,written]
  exact ⟨_,rfl⟩

theorem resending_contentIds_iff :
    (∃ s t i j,
      BlueprintStore.acknowledgeBlueprint (plainRoutes.hashing plainHash) { newId := "bp_1" } unlabelled {} = .ok (i,s) ∧
      BlueprintStore.acknowledgeBlueprint (plainRoutes.hashing plainHash) { newId := "bp_2" } unlabelled {} = .ok (j,t) ∧
      (i = j ↔ "bp_1" = "bp_2")) ∧
    ∃ s, run (BlueprintStore.mcpStep (plainRoutes.hashing plainHash)) resending {} = some s ∧
      ((∀ first rest t, resending = first ++ rest →
        run (BlueprintStore.mcpStep (plainRoutes.hashing plainHash)) first {} = some t →
          t.Addressed (plainRoutes.hashing plainHash)) ↔
        Throughout (BlueprintStore.mcpStep (plainRoutes.hashing plainHash))
          (BlueprintStore.Labelled (plainRoutes.hashing plainHash)) resending {}) := by
  obtain ⟨same,runs⟩ := contentIds_iff plainRoutes plainHash plainHash_injective
  constructor
  · obtain ⟨s,first⟩ := unlabelled_acknowledged { newId := "bp_1" } rfl
    obtain ⟨t,second⟩ := unlabelled_acknowledged { newId := "bp_2" } rfl
    exact ⟨s,t,_,_,first,second,same unlabelled unlabelled _ _ {} s {} t _ _ ⟨rfl,rfl,rfl⟩ first second⟩
  · have succeeds : (run (BlueprintStore.mcpStep (plainRoutes.hashing plainHash)) resending {}).isSome = true := by
      decide +kernel
    obtain ⟨s,succeed⟩ := Option.isSome_iff_exists.mp succeeds
    exact ⟨s,succeed,runs resending s succeed⟩

/-- The two copies get different ids, and the document stored for the first does not hash to its id. -/
theorem resending_disputed :
    (¬∀ (x : BlueprintRoutes) (h : ContentHash), h.Injective → ∀ (p q : BlueprintPayload) (c d : Circumstances)
      (s s' t t' : BlueprintStore) (i j : String), p.SameContent q →
      s.acknowledgeBlueprint (x.hashing h) c p = .ok (i,s') →
        t.acknowledgeBlueprint (x.hashing h) d q = .ok (j,t') → i = j) ∧
    ¬∀ (x : BlueprintRoutes) (h : ContentHash), h.Injective → ∀ requests s,
      run (BlueprintStore.mcpStep (x.hashing h)) requests {} = some s → s.Addressed (x.hashing h) := by
  constructor
  · intro claim
    obtain ⟨s,first⟩ := unlabelled_acknowledged { newId := "bp_1" } rfl
    obtain ⟨t,second⟩ := unlabelled_acknowledged { newId := "bp_2" } rfl
    have same := claim plainRoutes plainHash plainHash_injective unlabelled unlabelled _ _ {} s {} t _ _ ⟨rfl,rfl,rfl⟩
      first second
    have documents := ContentHash.contentId_injective plainHash_injective same
    exact absurd (congrArg Blueprint.blueprintId documents) (by decide)
  · intro claim
    have succeeds : (run (BlueprintStore.mcpStep (plainRoutes.hashing plainHash)) resending {}).isSome = true := by
      decide +kernel
    obtain ⟨s,succeed⟩ := Option.isSome_iff_exists.mp succeeds
    have addressed (first rest : List (McpRequest × Circumstances)) (t : BlueprintStore)
        (_ : resending = first ++ rest)
        (reached : run (BlueprintStore.mcpStep (plainRoutes.hashing plainHash)) first {} = some t) :
        t.Addressed (plainRoutes.hashing plainHash) :=
      claim plainRoutes plainHash plainHash_injective first t reached
    have contentId := ContentHash.contentId_injective plainHash_injective
    have labelled := (throughout_iff (BlueprintStore.mcpStep_addressed_iff contentId) succeed
      (claim plainRoutes plainHash plainHash_injective [] {} rfl)).mp addressed
    exact absurd (labelled.1 _ rfl) (by decide +kernel)

end IceOS
