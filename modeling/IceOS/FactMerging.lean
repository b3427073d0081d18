import IceOS.SemanticIndexes

/-! What becomes of facts that are merged into one. The keys are deleted after the merged fact is stored, its own key with
them if it is one of them. -/
namespace IceOS

open ActionRuns

namespace SemanticMemory

variable {α ρ : Type} {rules : SemanticRules α ρ} {cfg : MemoryConfig} {s t : SemanticMemory α ρ} {keys : List String}
  {mergedKey : String} {now : Int}

/-- The merged key holds what the listed facts held, the other keys are gone and nothing else has changed. -/
structure Conserves (rules : SemanticRules α ρ) (keys : List String) (mergedKey : String) (now : Int)
    (s t : SemanticMemory α ρ) : Prop where
  held : ∃ fact contents, t.facts.get? mergedKey = some fact ∧ fact.content = rules.mergedContent keys contents now ∧
    ∀ key ∈ keys, ∀ old, s.facts.get? key = some old →
      old.content ∈ contents ∧ (∀ entity ∈ old.entities, entity ∈ fact.entities) ∧
        ∀ rel ∈ old.relationships, rel ∈ fact.relationships
  gone : ∀ key ∈ keys, key ≠ mergedKey → t.facts.get? key = none
  others : ∀ key, key ∉ keys → key ≠ mergedKey → t.facts.get? key = s.facts.get? key

/-- Every merge that returns `True` conserves the facts. -/
def MergesConserve (rules : SemanticRules α ρ) (cfg : MemoryConfig) (s : SemanticMemory α ρ) : SemanticRequest α → Prop
  | .mergeFacts keys mergedKey now =>
    ∀ t, s.mergeFacts rules cfg keys mergedKey now = .ok (true,t) → Conserves rules keys mergedKey now s t
  | _ => True

/-- If any of the facts exists and the merged one can be embedded, its key is none of theirs. -/
def MergesApart (rules : SemanticRules α ρ) (cfg : MemoryConfig) (s : SemanticMemory α ρ) : SemanticRequest α → Prop
  | .mergeFacts keys mergedKey now =>
    keys.filterMap s.facts.get? ≠ [] →
      Embeds rules cfg (rules.mergedContent keys ((keys.filterMap s.facts.get?).map Fact.content) now) → mergedKey ∉ keys
  | _ => True

/-! ### Deleting never fails -/

theorem enough_empty (k : String) : (({} : SemanticMemory α ρ).trace k).Enough := by
  intro fact stored
  cases stored

theorem enough_store (enough : ∀ k, (s.trace k).Enough) (key : String) (content : α) (metadata : FactMetadata) (k : String) :
    ((left (s.store rules cfg key content metadata)).trace k).Enough := by
  rw [store_trace]
  split
  · exact FactTrace.enough_store _ _
  · exact enough k

theorem enough_deleteAll (enough : ∀ k, (s.trace k).Enough) (keys : List String) :
    ∃ count t, s.deleteAll keys = .ok (count,t) ∧ ∀ k, (t.trace k).Enough := by
  obtain ⟨count,t,deleted,traces,_⟩ := deleteAll_spec fun key (_ : key ∈ keys) => enough key
  refine ⟨count,t,deleted,fun k => ?_⟩
  rw [traces]
  split
  · exact FactTrace.enough_delete _
  · exact enough k

theorem enough_step (r : SemanticRequest α) (enough : ∀ k, (s.trace k).Enough) (stepped : s.step rules cfg r = some t)
    (k : String) : (t.trace k).Enough := by
  cases r with
  | store key content metadata =>
    cases stepped
    exact enough_store enough key content metadata k
  | delete key =>
    cases stepped
    obtain ⟨deleted,u,removed,traces,_⟩ := delete_spec (enough key)
    rw [removed,Except.map,left,traces]
    split
    · exact FactTrace.enough_delete _
    · exact enough k
  | mergeFacts keys mergedKey now =>
    cases stepped
    by_cases present : keys.filterMap s.facts.get? = []
    · rw [mergeFacts_nothing present]
      exact enough k
    have stored (k : String) : ((merging rules cfg s keys mergedKey now).trace k).Enough :=
      enough_store enough mergedKey _ _ k
    by_cases embeds : Embeds rules cfg (mergedFact rules s keys now).content
    · obtain ⟨u,done,_,traces⟩ := mergeFacts_spec mergedKey enough present embeds
      rw [done,Except.map,left,traces]
      split
      · exact FactTrace.enough_delete _
      · exact stored k
    · rw [mergeFacts_raises present embeds]
      exact stored k
  | clear pattern =>
    cases stepped
    obtain ⟨count,u,deleted,enough'⟩ := enough_deleteAll enough (s.facts.keys.filter fun key => key.startsWith (pattern.getD ""))
    rw [clear,deleted]
    exact enough' k

/-! ### Merging -/

theorem merged_holds {key : String} (listed : key ∈ keys) {old : Fact α} (stored : s.facts.get? key = some old) :
    old.content ∈ (keys.filterMap s.facts.get?).map Fact.content ∧
      (∀ entity ∈ old.entities, entity ∈ (mergedFact rules s keys now).entities) ∧
        ∀ rel ∈ old.relationships, rel ∈ (mergedFact rules s keys now).relationships := by
  have merged : old ∈ keys.filterMap s.facts.get? := List.mem_filterMap.mpr ⟨key,listed,stored⟩
  refine ⟨List.mem_map_of_mem merged,fun entity member => ?_,fun rel member => List.mem_flatMap.mpr ⟨old,merged,member⟩⟩
  exact (rules.mem_listing _ entity).mpr (List.mem_flatMap.mpr ⟨old,merged,member⟩)

/-- The facts after a merge. -/
theorem mergeFacts_facts (mergedKey : String) (enough : ∀ k, (s.trace k).Enough) (present : keys.filterMap s.facts.get? ≠ [])
    (embeds : Embeds rules cfg (mergedFact rules s keys now).content) :
    ∃ t, s.mergeFacts rules cfg keys mergedKey now = .ok (true,t) ∧ ∀ k, t.facts.get? k =
      if k ∈ keys then none else if mergedKey = k then some (mergedFact rules s keys now) else s.facts.get? k := by
  obtain ⟨t,done,_,traces⟩ := mergeFacts_spec mergedKey enough present embeds
  refine ⟨t,done,fun k => ?_⟩
  have fact := congrArg FactTrace.fact (traces k)
  rw [merging_trace] at fact
  refine fact.trans ?_
  split
  · exact FactTrace.delete_fact _
  · split
    · rfl
    · rfl

theorem conserves_iff (enough : ∀ k, (s.trace k).Enough) (r : SemanticRequest α) :
    MergesConserve rules cfg s r ↔ MergesApart rules cfg s r := by
  cases r with
  | store | delete | clear => exact Iff.rfl
  | mergeFacts keys mergedKey now =>
    simp only [MergesConserve,MergesApart]
    by_cases present : keys.filterMap s.facts.get? = []
    · simp [mergeFacts_nothing present,present]
    by_cases embeds : Embeds rules cfg (mergedFact rules s keys now).content
    · obtain ⟨t,done,facts⟩ := mergeFacts_facts mergedKey enough present embeds
      constructor
      · intro conserves _ _ listed
        obtain ⟨fact,contents,stored,_⟩ := (conserves t done).held
        rw [facts,if_pos listed] at stored
        cases stored
      · intro apart u merged
        cases done.symm.trans merged
        have outside := apart present embeds
        refine ⟨⟨_,_,?_,rfl,fun key listed old stored => merged_holds listed stored⟩,fun key listed _ => ?_,
          fun key unlisted other => ?_⟩
        · rw [facts,if_neg outside,if_pos rfl]
        · rw [facts,if_pos listed]
        · rw [facts,if_neg unlisted,if_neg (Ne.symm other)]
    · constructor
      · intro _ _ embedded
        exact absurd embedded embeds
      · intro _ t merged
        cases (mergeFacts_raises present embeds).symm.trans merged

/-- All along a sequence of requests every merge conserves the facts exactly if its key is none of those it merges. -/
theorem merges_conserve_iff (rules : SemanticRules α ρ) (cfg : MemoryConfig) (requests : List (SemanticRequest α)) :
    Throughout (step rules cfg) (MergesConserve rules cfg) requests {} ↔
      Throughout (step rules cfg) (MergesApart rules cfg) requests {} :=
  throughout_congr (fun _ r _ enough stepped => enough_step r enough stepped) (fun _ r enough => conserves_iff enough r)
    requests enough_empty

/-- A fact that is merged into itself is gone. -/
theorem ownKey_lost : ¬∀ requests : List (SemanticRequest String),
    Throughout (step plainRules {}) (MergesConserve plainRules {}) requests {} := by
  intro conserves
  have merges := conserves [.store "price" "1200" {},.mergeFacts ["price"] "price" 0]
  obtain ⟨fact,contents,stored,_⟩ := ((merges.2 _ rfl).1 _ rfl).held
  cases stored

end SemanticMemory

end IceOS
