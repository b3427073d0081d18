import IceOS.ActionRuns
import IceOS.SemanticTable
import Mathlib.Logic.Function.Basic

/-! Library assets in the semantic memory: adding, reading and deleting them, and what was last stored by each user
under each label. -/
namespace IceOS.LibraryAssets

open SemanticTable UpsertTable

variable {φ ε : Type}

def maxContentBytes : Nat := 1000000

def allowedMimes : List String := ["text/plain","text/markdown","application/json"]

structure LibraryAssetIn where
  label : String
  content : String
  mime : Option String := none
  scope : String := "library"
  orgId : Option String := none
  userId : Option String := none

def assetKey (userId : Option String) (label : String) : String :=
  "asset:" ++ orDefault userId "_default_user" ++ ":" ++ label

/-- The insert of an asset. -/
def LibraryAssetIn.insert (payload : LibraryAssetIn) (db : Database φ ε) : Insert φ where
  scope := payload.scope
  key := assetKey payload.userId payload.label
  contentHash := db.sha256 payload.content
  metaJson := .ofList [("content",.str payload.content),("mime",.str (orDefault payload.mime "text/plain")),
    ("category",.str "user_asset"),("label",.str payload.label)]
  embeddingVec := none
  orgId := payload.orgId
  userId := payload.userId
  modelVersion := none

/-- The bounds that the request model puts on a label, then the checks of the route. -/
def LibraryAssetIn.reject (payload : LibraryAssetIn) : Option (Nat × String) :=
  if payload.label.length < 1 ∨ 128 < payload.label.length then some (422,"label")
  else if maxContentBytes < payload.content.utf8ByteSize then some (413,"Content too large")
  else if (payload.mime.filter (· ≠ "")).any (· ∉ allowedMimes) then some (415,"Unsupported MIME type")
  else none

def addAsset (db : Database φ ε) (payload : LibraryAssetIn) (rows : List (SemanticRow φ ε)) :
    Except (Nat × String) (List (SemanticRow φ ε)) :=
  match payload.reject with
  | some e => .error e
  | none => (insertWithSession db (payload.insert db) rows).mapError fun text => (500,text)

/-- The rows of a key, of one organisation if one is given. -/
def assetRow (orgId userId : Option String) (label : String) (r : SemanticRow φ ε) : Bool :=
  r.scope = "library" ∧ r.key = assetKey userId label ∧ ∀ org ∈ orgId, r.orgId = org

def getAsset (orgId userId : Option String) (label : String) (rows : List (SemanticRow φ ε)) :
    Except (Nat × String) (SemanticRow φ ε) :=
  match (rows.filter (assetRow orgId userId label)).getLast? with
  | some r => .ok r
  | none => .error (404,"Asset not found")

def deleteAsset (orgId userId : Option String) (label : String) (rows : List (SemanticRow φ ε)) :
    List (SemanticRow φ ε) :=
  rows.filter fun r => !assetRow orgId userId label r

/-- An organisation, a user and a label. -/
abbrev Asset := String × String × String

/-- The table, and next to it what was last stored under each asset and not deleted since. -/
structure Library (φ ε : Type) where
  rows : List (SemanticRow φ ε) := []
  stored : Asset → Option String := fun _ => none

inductive AssetRequest where
  | add (org user label content : String) (mime : Option String)
  | delete (org user label : String)

/-- The body of an add request in the default scope. -/
def payload (org user label content : String) (mime : Option String) : LibraryAssetIn :=
  { label,content,mime,orgId := some org,userId := some user }

def step (db : Database φ ε) (s : Library φ ε) : AssetRequest → Option (Library φ ε)
  | .add org user label content mime =>
    match addAsset db (payload org user label content mime) s.rows with
    | .error _ => some s
    | .ok rows => some ⟨rows,Function.update s.stored (org,user,label) (some content)⟩
  | .delete org user label =>
    some ⟨deleteAsset (some org) (some user) label s.rows,Function.update s.stored (org,user,label) none⟩

/-- The content of the row that `get_asset` answers with. -/
def shown (rows : List (SemanticRow φ ε)) (asset : Asset) : Option (Json φ) :=
  (getAsset (some asset.1) (some asset.2.1) asset.2.2 rows).toOption.bind (·.metaJson.get? "content")

/-- Every asset is answered with what was last stored under it. -/
def KeptApart (s : Library φ ε) : Prop := ∀ asset, shown s.rows asset = (s.stored asset).map .str

/-- No other user and label have the key. -/
def Unambiguous (user label : String) : Prop :=
  ∀ user' label', assetKey (some user') label' = assetKey (some user) label → user' = user ∧ label' = label

/-- The request passes the checks, and the database takes the row. -/
def Accepted (db : Database φ ε) (p : LibraryAssetIn) : Prop := p.reject = none ∧ (p.insert db).Taken db

/-- What is stored goes under an organisation that is named and a key that belongs to one asset; the organisation
has no row with the content yet, or the row is older than all of the asset, and either the asset's own or hidden
behind a newer one. -/
def Separate (db : Database φ ε) (s : Library φ ε) : AssetRequest → Prop
  | .add org user label content mime => Accepted db (payload org user label content mime) →
    org ≠ "" ∧ Unambiguous user label ∧
      Clean layout (((payload org user label content mime).insert db).row db) s.rows
  | .delete _ _ _ => True

/-! ### The routes as operations of the table -/

/-- Where the row of an asset is looked up. -/
def placeOf (asset : Asset) : String × String × String := (asset.1,"library",assetKey (some asset.2.1) asset.2.2)

theorem assetRow_iff (asset : Asset) (r : SemanticRow φ ε) :
    assetRow (some asset.1) (some asset.2.1) asset.2.2 r = true ↔ layout.place r = placeOf asset := by
  simp only [assetRow,decide_eq_true_eq,layout,placeOf,Prod.mk.injEq,Option.mem_def,Option.some.injEq,forall_eq']
  tauto

theorem shown_eq (rows : List (SemanticRow φ ε)) (asset : Asset) :
    shown rows asset = (newest layout (placeOf asset) rows).bind (·.metaJson.get? "content") := by
  have same : assetRow (φ := φ) (ε := ε) (some asset.1) (some asset.2.1) asset.2.2 =
      fun r => decide (layout.place r = placeOf asset) := funext fun r => by
    rw [Bool.eq_iff_iff,assetRow_iff,decide_eq_true_eq]
  rw [shown,getAsset,same,newest_eq_getLast?]
  cases (rows.filter fun r => decide (layout.place r = placeOf asset)).getLast? <;> rfl

theorem deleteAsset_eq (asset : Asset) (rows : List (SemanticRow φ ε)) :
    deleteAsset (some asset.1) (some asset.2.1) asset.2.2 rows = erase layout (placeOf asset) rows := by
  refine List.filter_congr fun r _ => ?_
  rw [Bool.eq_iff_iff,Bool.not_eq_true',← Bool.not_eq_true,assetRow_iff,decide_eq_true_eq]

theorem addAsset_accepted {db : Database φ ε} {p : LibraryAssetIn} (accepted : Accepted db p)
    (rows : List (SemanticRow φ ε)) : addAsset db p rows = .ok (upsert layout ((p.insert db).row db) rows) := by
  simp only [addAsset,accepted.1,insertWithSession_taken accepted.2,Except.mapError]

theorem addAsset_refused {db : Database φ ε} {p : LibraryAssetIn} (refused : ¬Accepted db p)
    (rows : List (SemanticRow φ ε)) : ∃ e, addAsset db p rows = .error e := by
  cases rejected : p.reject with
  | some e => exact ⟨e,by simp only [addAsset,rejected]⟩
  | none =>
    obtain ⟨text,failed⟩ := insertWithSession_refused (fun taken => refused ⟨rejected,taken⟩) rows
    exact ⟨(500,text),by simp only [addAsset,rejected,failed,Except.mapError]⟩

theorem insert_content (db : Database φ ε) (p : LibraryAssetIn) :
    (p.insert db).metaJson.get? "content" = some (.str p.content) := by
  rw [LibraryAssetIn.insert,OrderedDict.ofList,OrderedDict.get?_update_reverse]
  rfl

/-- The row of an asset after it was added. -/
theorem written_content (db : Database φ ε) (p : LibraryAssetIn) (rows : List (SemanticRow φ ε)) :
    (written layout ((p.insert db).row db) rows).metaJson.get? "content" = some (.str p.content) := by
  rcases key_cases (t := layout) ((p.insert db).row db) rows with fresh | ⟨before,old,later,rfl,same,first⟩
  · rw [(fresh_upsert fresh).2.1]
    exact insert_content db p
  · rw [(known_upsert later first same).2.1]
    simp only [layout,Insert.row,OrderedDict.get?_update_items,insert_content,Option.some_or]

/-! ### What is kept all along -/

/-- A row of an asset: its key says which, and its hash is that of its content. -/
structure AssetOf (db : Database φ ε) (asset : Asset) (content : String) (r : SemanticRow φ ε) : Prop where
  org : asset.1 ≠ ""
  unambiguous : Unambiguous asset.2.1 asset.2.2
  place : layout.place r = placeOf asset
  holds : r.metaJson.get? "content" = some (.str content)
  hash : r.contentHash = db.sha256 content

structure Shelved (db : Database φ ε) (s : Library φ ε) : Prop where
  kept : KeptApart s
  unique : Unique layout s.rows
  rows : ∀ r ∈ s.rows, ∃ asset content, AssetOf db asset content r

theorem AssetOf.only {db : Database φ ε} {asset other : Asset} {content : String} {r : SemanticRow φ ε}
    (own : AssetOf db asset content r) (same : layout.place r = placeOf other) : other = asset := by
  have place := own.place.symm.trans same
  simp only [placeOf,Prod.mk.injEq] at place
  obtain ⟨user,label⟩ := own.unambiguous other.2.1 other.2.2 place.2.2.symm
  exact Prod.ext place.1.symm (Prod.ext user label)

theorem shelved_start (db : Database φ ε) : Shelved db ({} : Library φ ε) :=
  ⟨fun _ => rfl,List.nodup_nil,fun _ member => by contradiction⟩

theorem payload_place (db : Database φ ε) {org : String} (named : org ≠ "") (user label content : String)
    (mime : Option String) :
    layout.place (((payload org user label content mime).insert db).row db) = placeOf (org,user,label) := by
  simp [layout,placeOf,payload,LibraryAssetIn.insert,Insert.row,orDefault,named]

/-- The rows at one place of one content have one key. -/
theorem AssetOf.key_eq {db : Database φ ε} {asset other : Asset} {content : String} {r r' : SemanticRow φ ε}
    (own : AssetOf db asset content r) (own' : AssetOf db other content r')
    (same : r.orgId = r'.orgId) : layout.key r = layout.key r' := by
  simp only [layout,own.hash,own'.hash,same]

section Steps

variable {db : Database φ ε} {s : Library φ ε}

theorem Shelved.delete (shelved : Shelved db s) (asset : Asset) :
    Shelved db ⟨deleteAsset (some asset.1) (some asset.2.1) asset.2.2 s.rows,Function.update s.stored asset none⟩ := by
  rw [deleteAsset_eq]
  refine ⟨fun other => ?_,unique_erase shelved.unique,fun r member => shelved.rows r (List.mem_filter.mp member).1⟩
  rw [shown_eq,newest_erase]
  by_cases own : other = asset
  · simp [own]
  · simp only [Function.update_of_ne own]
    rw [← shelved.kept other,shown_eq]
    split
    · next place =>
      -- a row there would belong to two assets
      cases found : newest layout (placeOf other) s.rows with
      | none => rfl
      | some r =>
        obtain ⟨member,here⟩ := newest_some found
        obtain ⟨owner,content,of⟩ := shelved.rows r member
        exact absurd ((of.only here).trans (of.only (here.trans place)).symm) own
    · rfl

variable {org user label content : String} {mime : Option String}

/-- The row that an add request leaves is one of its asset. -/
theorem written_asset (s : Library φ ε) (named : org ≠ "") (unambiguous : Unambiguous user label) :
    AssetOf db (org,user,label) content
      (written layout (((payload org user label content mime).insert db).row db) s.rows) := by
  refine ⟨named,unambiguous,?_,written_content db (payload org user label content mime) s.rows,?_⟩
  · rw [place_written,payload_place db named]
  · have key := key_written (t := layout) (((payload org user label content mime).insert db).row db) s.rows
    exact (Prod.mk.inj key).2

theorem Shelved.add (shelved : Shelved db s) (named : org ≠ "") (unambiguous : Unambiguous user label)
    (clean : Clean layout (((payload org user label content mime).insert db).row db) s.rows) :
    Shelved db ⟨upsert layout (((payload org user label content mime).insert db).row db) s.rows,
      Function.update s.stored (org,user,label) (some content)⟩ := by
  have own : AssetOf db (org,user,label) content
      (written layout (((payload org user label content mime).insert db).row db) s.rows) :=
    written_asset s named unambiguous
  have place := payload_place db named user label content mime
  refine ⟨fun other => ?_,unique_upsert _ shelved.unique,fun r member => ?_⟩
  · rw [shown_eq]
    by_cases here : placeOf other = placeOf (org,user,label)
    · have found := newest_written clean
      rw [place] at found
      rw [here,found,own.only (own.place.trans here.symm)]
      simpa using own.holds
    · have apart : other ≠ (org,user,label) := fun same => here (same ▸ rfl)
      simp only [Function.update_of_ne apart]
      rw [newest_other clean (place ▸ here),← shelved.kept other,shown_eq]
  · rcases mem_upsert member with old | rfl
    · exact shelved.rows r old
    · exact ⟨_,content,own⟩

/-- What the table shows is some row's content. -/
theorem shown_some {rows : List (SemanticRow φ ε)} {asset : Asset} {content : String}
    (seen : shown rows asset = some (.str content)) :
    ∃ r, newest layout (placeOf asset) rows = some r ∧ r.metaJson.get? "content" = some (.str content) := by
  rw [shown_eq] at seen
  exact Option.bind_eq_some_iff.mp seen

theorem AssetOf.content_eq {asset : Asset} {content content' : String} {r : SemanticRow φ ε}
    (own : AssetOf db asset content r) (holds : r.metaJson.get? "content" = some (.str content')) :
    content = content' := by
  rw [own.holds] at holds
  exact Json.str.inj (Option.some.inj holds)

/-- A row is stored where nothing is found unless an organisation is named. -/
theorem KeptApart.named (shelved : Shelved db s)
    (kept : KeptApart ⟨upsert layout (((payload org user label content mime).insert db).row db) s.rows,
      Function.update s.stored (org,user,label) (some content)⟩) : org ≠ "" := by
  rintro rfl
  have seen := kept ("",user,label)
  simp only [Function.update_self,Option.map_some] at seen
  obtain ⟨r,found,_⟩ := shown_some seen
  obtain ⟨member,here⟩ := newest_some found
  rcases mem_upsert member with old | rfl
  · obtain ⟨owner,_,own⟩ := shelved.rows r old
    rw [← own.only here] at own
    exact own.org rfl
  · rw [place_written] at here
    exact absurd (congrArg Prod.fst here) (by simp [layout,payload,LibraryAssetIn.insert,Insert.row,orDefault,placeOf])

/-- Whatever has the key shows the content, so it was stored there before, in a row of one asset. -/
theorem KeptApart.unambiguous (shelved : Shelved db s)
    (kept : KeptApart ⟨upsert layout (((payload org user label content mime).insert db).row db) s.rows,
      Function.update s.stored (org,user,label) (some content)⟩) : Unambiguous user label := by
  intro user' label' same
  have place : placeOf (org,user',label') = placeOf (org,user,label) := by simp only [placeOf,same]
  by_cases own : (org,user',label') = (org,user,label)
  · simp only [Prod.mk.injEq] at own
    exact own.2
  · have seen := (kept (org,user',label')).symm
    rw [shown_eq,place,← shown_eq,kept] at seen
    simp only [Function.update_self,Function.update_of_ne own,Option.map_some] at seen
    obtain ⟨r,found,_⟩ := shown_some ((shelved.kept (org,user',label')).trans seen)
    obtain ⟨member,here⟩ := newest_some found
    obtain ⟨owner,_,of⟩ := shelved.rows r member
    exact absurd ((of.only here).trans (of.only (here.trans place)).symm) own

theorem KeptApart.clean (shelved : Shelved db s)
    (kept : KeptApart ⟨upsert layout (((payload org user label content mime).insert db).row db) s.rows,
      Function.update s.stored (org,user,label) (some content)⟩) :
    Clean layout (((payload org user label content mime).insert db).row db) s.rows := by
  have place := payload_place db (kept.named shelved) user label content mime
  refine clean_of shelved.unique ?_ fun r found other => ?_
  · have seen := kept (org,user,label)
    simp only [Function.update_self,Option.map_some] at seen
    obtain ⟨r,found,holds⟩ := shown_some seen
    refine ⟨r,place ▸ found,?_⟩
    obtain ⟨member,here⟩ := newest_some found
    rcases mem_upsert member with old | rfl
    · obtain ⟨owner,c,own⟩ := shelved.rows r old
      obtain rfl := own.content_eq holds
      have organisation := congrArg Prod.fst (here.trans place.symm)
      exact Prod.ext organisation own.hash
    · exact key_written _ _
  · obtain ⟨member,_⟩ := newest_some found
    obtain ⟨asset,c,own⟩ := shelved.rows r member
    have apart : asset ≠ (org,user,label) := fun same => other (by rw [own.place,place,same])
    have seen := kept asset
    rw [own.place] at found
    simp only [Function.update_of_ne apart] at seen
    rw [← shelved.kept asset,shown_eq s.rows,found,Option.bind_some,own.holds] at seen
    obtain ⟨r',found',holds⟩ := shown_some seen
    refine ⟨r',own.place ▸ found',?_⟩
    obtain ⟨member',here⟩ := newest_some found'
    rcases mem_upsert member' with old | rfl
    · obtain ⟨asset',c',own'⟩ := shelved.rows r' old
      obtain rfl := own'.content_eq holds
      exact own'.key_eq own (congrArg Prod.fst (here.trans own.place.symm))
    · rw [place_written] at here
      exact absurd (own.place.trans here.symm) other

end Steps

/-- Exactly the separate requests leave every asset with what was last stored under it. -/
theorem keptApart_iff {db : Database φ ε} {s t : Library φ ε} {a : AssetRequest} (shelved : Shelved db s)
    (stepped : step db s a = some t) : KeptApart t ↔ Separate db s a := by
  cases a with
  | delete org user label =>
    cases stepped
    exact iff_of_true (shelved.delete (org,user,label)).kept trivial
  | add org user label content mime =>
    by_cases accepted : Accepted db (payload org user label content mime)
    · simp only [step,addAsset_accepted accepted,Option.some.injEq] at stepped
      subst stepped
      constructor
      · exact fun kept _ => ⟨kept.named shelved,kept.unambiguous shelved,kept.clean shelved⟩
      · intro separate
        obtain ⟨named,unambiguous,clean⟩ := separate accepted
        exact (shelved.add named unambiguous clean).kept
    · obtain ⟨e,refused⟩ := addAsset_refused accepted s.rows
      simp only [step,refused,Option.some.injEq] at stepped
      subst stepped
      exact iff_of_true shelved.kept fun fine => absurd fine accepted

theorem Shelved.step {db : Database φ ε} {s t : Library φ ε} {a : AssetRequest} (shelved : Shelved db s)
    (separate : Separate db s a) (stepped : step db s a = some t) : Shelved db t := by
  cases a with
  | delete org user label =>
    cases stepped
    exact shelved.delete (org,user,label)
  | add org user label content mime =>
    by_cases accepted : Accepted db (payload org user label content mime)
    · simp only [LibraryAssets.step,addAsset_accepted accepted,Option.some.injEq] at stepped
      subst stepped
      obtain ⟨named,unambiguous,clean⟩ := separate accepted
      exact shelved.add named unambiguous clean
    · obtain ⟨e,refused⟩ := addAsset_refused accepted s.rows
      simp only [LibraryAssets.step,refused,Option.some.injEq] at stepped
      exact stepped ▸ shelved

theorem step_total (db : Database φ ε) (s : Library φ ε) (a : AssetRequest) : ∃ t, step db s a = some t := by
  cases a with
  | delete org user label => exact ⟨_,rfl⟩
  | add org user label content mime =>
    cases added : addAsset db (payload org user label content mime) s.rows <;> simp [step,added]

/-- Assets are kept apart all along the runs of separate requests and along no others. -/
theorem assets_apart_iff (db : Database φ ε) (requests : List AssetRequest) :
    (∀ first rest t, requests = first ++ rest → ActionRuns.run (step db) first {} = some t → KeptApart t) ↔
      ActionRuns.Throughout (step db) (Separate db) requests {} := by
  have exactly (s : Library φ ε) (a : AssetRequest) (t : Library φ ε) (shelved : Shelved db s)
      (stepped : step db s a = some t) : KeptApart t ↔ Separate db s a := keptApart_iff shelved stepped
  have stays (s : Library φ ε) (a : AssetRequest) (t : Library φ ε) (shelved : Shelved db s)
      (separate : Separate db s a) (stepped : step db s a = some t) : Shelved db t := shelved.step separate stepped
  obtain ⟨t,ran⟩ := ActionRuns.run_total (step_total db) requests {}
  exact ActionRuns.throughout_iff_of_strong exactly stays ran (shelved_start db) (shelved_start db).kept

/-- A table that takes every row, under a digest that keeps all contents apart. -/
abbrev plainTable : Database Nat Unit := ⟨id,fun _ => (),fun _ => none⟩

/-- A second user of the organisation who stores the same content takes over the row of the first; and where users
and labels have colons, two assets may have the one key. -/
theorem shared_content_moves :
    (¬∀ t, ActionRuns.run (step plainTable)
      [.add "acme" "ann" "notes" "same" none,.add "acme" "bob" "memo" "same" none] {} = some t → KeptApart t) ∧
    ¬∀ t, ActionRuns.run (step plainTable) [.add "acme" "a" "b:c" "text" none] {} = some t → KeptApart t := by
  constructor
  · intro always
    have kept := always _ rfl ("acme","ann","notes")
    exact absurd (congrArg Option.isSome kept) (by decide)
  · intro always
    have kept := always _ rfl ("acme","a:b","c")
    exact absurd (congrArg Option.isSome kept) (by decide)

end IceOS.LibraryAssets
