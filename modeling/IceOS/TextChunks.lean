import Mathlib.Algebra.Order.BigOperators.Group.List
import Mathlib.Algebra.Order.Group.Nat
import IceOS.PythonWords

/-! Splitting a text into overlapping chunks of words. -/
namespace IceOS

open PythonText

section

variable {α : Type}

/-- `tokens[start:stop]` -/
def slice (xs : List α) (start stop : Nat) : List α := (xs.take stop).drop start

/-- The loop of `chunk_text`. It goes on from `overlap` before the end of a slice, which is behind the
slice's start. -/
def slices (size overlap : Int) (smaller : overlap < size) (xs : List α) (start : Nat) : List (List α) :=
  if start < xs.length then
    let stop := min (start + size.toNat) xs.length
    if stop = xs.length then [slice xs start stop]
    else slice xs start stop :: slices size overlap smaller xs ((stop : Int) - overlap).toNat
  else []
termination_by xs.length - start
decreasing_by omega

/-- The chunks without what each shares with the one before it. -/
def merged (overlap : Nat) : List (List α) → List α
  | [] => []
  | first :: rest => first ++ (rest.map (List.drop overlap)).flatten

/-- The chunks are short, neighbours share `overlap` elements, and without these they give back the list. -/
structure Covers (size overlap : Nat) (xs : List α) (chunks : List (List α)) : Prop where
  short : ∀ chunk ∈ chunks, chunk.length ≤ size
  shared : chunks.IsChain fun left right => ∃ both : List α, both.length = overlap ∧ both <:+ left ∧ both <+: right
  whole : merged overlap chunks = xs

theorem covers_short {size overlap : Nat} {xs : List α} (short : xs.length ≤ size) : Covers size overlap xs [xs] where
  short chunk member := by rwa [List.mem_singleton.mp member]
  shared := List.IsChain.singleton xs
  whole := by simp [merged]

/-- A first chunk before a cover of what stands `overlap` before its end. -/
theorem covers_cons {size overlap : Nat} {xs next : List α} {rest : List (List α)} (smaller : overlap ≤ size)
    (enough : overlap ≤ next.length)
    (covers : Covers size overlap (xs.drop (size - overlap)) (next :: rest)) :
    Covers size overlap xs (xs.take size :: next :: rest) := by
  have whole := covers.whole
  simp only [merged] at whole
  have tail : next.drop overlap ++ (rest.map (List.drop overlap)).flatten = xs.drop size := by
    rw [← List.drop_append_of_le_length enough,whole,List.drop_drop]
    congr 1
    omega
  refine { short := ?_,shared := ?_,whole := ?_ }
  · refine List.forall_mem_cons.mpr ⟨?_,covers.short⟩
    rw [List.length_take]
    exact Nat.min_le_left size xs.length
  · refine List.isChain_cons_cons.mpr ⟨⟨next.take overlap,List.length_take_of_le enough,?_,List.take_prefix overlap next⟩,
      covers.shared⟩
    have start : next.take overlap = (xs.take size).drop (size - overlap) := by
      have own : next.take overlap = (xs.drop (size - overlap)).take overlap := by
        rw [← whole,List.take_append_of_le_length enough]
      rw [own,List.drop_take]
      congr 1
      omega
    rw [start]
    exact List.drop_suffix _ _
  · calc merged overlap (xs.take size :: next :: rest)
        = xs.take size ++ (next.drop overlap ++ (rest.map (List.drop overlap)).flatten) := rfl
      _ = xs := by rw [tail,List.take_append_drop]

/-- Chunks that share something are longer together than the list. -/
theorem covers_overlap {size overlap : Nat} {xs first next : List α} {rest : List (List α)} (positive : 0 < overlap)
    (covers : Covers size overlap xs (first :: next :: rest)) : merged 0 (first :: next :: rest) ≠ xs := by
  intro plain
  have lengths := congrArg List.length (plain.trans covers.whole.symm)
  obtain ⟨both,length,-,inside⟩ := (List.isChain_cons_cons.mp covers.shared).1
  have shared := inside.length_le
  have fewer : ((rest.map (List.drop overlap)).flatten).length ≤ ((rest.map (List.drop 0)).flatten).length := by
    simp only [List.length_flatten,List.map_map]
    refine List.sum_le_sum fun chunk _ => ?_
    simp
  simp only [merged,List.map_cons,List.flatten_cons,List.length_append,List.length_drop] at lengths
  omega

/-- What the loop cuts from `start` on covers the list from there; its first slice is long enough to share. -/
theorem slices_covers (size overlap : Nat) (smaller : (overlap : Int) < size) (xs : List α) (start : Nat)
    (inside : start < xs.length) : ∃ next rest, slices size overlap smaller xs start = next :: rest ∧
      Covers size overlap (xs.drop start) (next :: rest) ∧ next = (xs.drop start).take size := by
  rw [slices,if_pos inside]
  by_cases last : min (start + size) xs.length = xs.length
  · have short : (xs.drop start).length ≤ size := by
      rw [List.length_drop]
      omega
    have slice_eq : slice xs start xs.length = xs.drop start := by rw [slice,List.take_length]
    refine ⟨xs.drop start,[],?_,covers_short short,(List.take_of_length_le short).symm⟩
    simp only [Int.toNat_natCast,last,if_true,slice_eq]
  · have full : min (start + size) xs.length = start + size := by omega
    have further : (((start + size : Nat) : Int) - overlap).toNat = start + (size - overlap) := by omega
    have before : start + (size - overlap) < xs.length := by omega
    obtain ⟨next,rest,cut,covers,head⟩ := slices_covers size overlap smaller xs (start + (size - overlap)) before
    have slice_eq : slice xs start (start + size) = (xs.drop start).take size := by
      rw [slice,List.drop_take,Nat.add_sub_cancel_left]
    refine ⟨(xs.drop start).take size,next :: rest,?_,?_,rfl⟩
    · rw [full] at last
      simp only [Int.toNat_natCast,full,last,if_false,slice_eq,further,cut]
    · refine covers_cons (by omega) ?_ ?_
      · rw [head,List.length_take,List.length_drop]
        omega
      · rw [List.drop_drop]
        exact covers
termination_by xs.length - start

theorem slices_short {size overlap : Int} (smaller : overlap < size) {xs : List α} (some : xs ≠ [])
    (short : (xs.length : Int) ≤ size) : slices size overlap smaller xs 0 = [xs] := by
  have inside : 0 < xs.length := List.length_pos_iff.mpr some
  have last : min (0 + size.toNat) xs.length = xs.length := by omega
  rw [slices,if_pos inside]
  simp only [last,if_true,slice,List.take_length,List.drop_zero]

theorem slices_mem {size overlap : Int} {smaller : overlap < size} {xs : List α} {start : Nat} {chunk : List α}
    (member : chunk ∈ slices size overlap smaller xs start) : ∀ x ∈ chunk, x ∈ xs := by
  have part (i j : Nat) : ∀ x ∈ slice xs i j, x ∈ xs := fun x inside =>
    List.mem_of_mem_take (List.mem_of_mem_drop inside)
  fun_induction slices size overlap smaller xs start with
  | case1 start inside stop last =>
    rw [List.mem_singleton.mp member]
    exact part _ _
  | case2 start inside stop more ih =>
    rcases List.mem_cons.mp member with rfl | later
    · exact part _ _
    · exact ih later
  | case3 => cases member

theorem covers_nil (size overlap : Nat) : Covers size overlap ([] : List α) [] where
  short chunk member := by cases member
  shared := List.IsChain.nil
  whole := rfl

end

/-! ### The text processor -/

/-- The fields carry the bounds that the model checks. -/
structure TextProcessor where
  defaultChunkSize : Int := 1000
  defaultChunkOverlap : Int := 200
  atLeast : 100 ≤ defaultChunkSize := by decide
  nonneg : 0 ≤ defaultChunkOverlap := by decide

namespace TextProcessor

inductive ChunkError
  | valueError (message : String)
deriving DecidableEq, Repr

/-- `given or default`: an explicit zero counts as nothing given. -/
def orDefault (given : Option Int) (default : Int) : Int :=
  match given with
  | none => default
  | some n => if n = 0 then default else n

def chunkText (p : TextProcessor) (text : String) (chunkSize chunkOverlap : Option Int := none) :
    Except ChunkError (List String) :=
  let size := orDefault chunkSize p.defaultChunkSize
  let overlap := orDefault chunkOverlap p.defaultChunkOverlap
  if size ≤ 0 then .error (.valueError "chunk_size must be > 0")
  else if smaller : overlap < size then
    let tokens := words text
    if tokens = [] then .ok []
    else .ok ((slices size overlap smaller tokens 0).map fun chunk => strip (joinWords chunk))
  else .error (.valueError "chunk_overlap must be smaller than chunk_size")

theorem map_words_strip {text : String} {cuts : List (List String)}
    (taken : ∀ cut ∈ cuts, ∀ w ∈ cut, w ∈ words text) : (cuts.map fun cut => strip (joinWords cut)).map words = cuts := by
  induction cuts with
  | nil => rfl
  | cons cut rest ih =>
    obtain ⟨own,later⟩ := List.forall_mem_cons.mp taken
    rw [List.map_cons,List.map_cons,words_strip_joinWords text own,ih later]

section

variable {p : TextProcessor} {size overlap k : Nat}

/-- With the overlap that is in force the words are covered, by more than one chunk if they do not fit in
one; a single chunk shares nothing, so it covers them for any overlap. -/
theorem chunkText_covers (text : String) (positive : 0 < size) (forced : orDefault (some (overlap : Int)) p.defaultChunkOverlap = k)
    (smaller : k < size) : ∃ chunks, p.chunkText text (some size) (some overlap) = .ok chunks ∧
      Covers size k (words text) (chunks.map words) ∧
      (size < (words text).length → ∃ first next rest, chunks.map words = first :: next :: rest) ∧
      ((words text).length ≤ size → ∀ j, Covers size j (words text) (chunks.map words)) := by
  have given : orDefault (some (size : Int)) p.defaultChunkSize = size := if_neg (by omega)
  have counted : ¬(size : Int) ≤ 0 := by omega
  have less : (k : Int) < size := by omega
  have run : p.chunkText text (some size) (some overlap) =
      if words text = [] then .ok []
      else .ok ((slices size k less (words text) 0).map fun chunk => strip (joinWords chunk)) := by
    simp only [chunkText,given,forced,if_neg counted,dif_pos less]
  by_cases none : words text = []
  · refine ⟨[],run.trans (if_pos none),?_⟩
    rw [none]
    exact ⟨covers_nil size k,fun many => absurd many (Nat.not_lt_zero size),fun _ j => covers_nil size j⟩
  · have back : ((slices size k less (words text) 0).map fun chunk => strip (joinWords chunk)).map words =
        slices size k less (words text) 0 := map_words_strip fun _ member => slices_mem member
    obtain ⟨first,rest,cut,covers,head⟩ := slices_covers size k less (words text) 0 (List.length_pos_iff.mpr none)
    refine ⟨_,run.trans (if_neg none),?_,fun many => ?_,fun few j => ?_⟩
    · rw [back,cut]
      exact covers
    · rw [back,cut]
      cases rest with
      | nil =>
        have whole := congrArg List.length covers.whole
        simp only [merged,List.map_nil,List.flatten_nil,List.append_nil,List.drop_zero] at whole
        rw [head,List.length_take,List.drop_zero] at whole
        omega
      | cons next rest => exact ⟨first,next,rest,rfl⟩
    · rw [back,slices_short less none (by omega)]
      exact covers_short few

theorem chunkText_refused (positive : 0 < size)
    (large : (size : Int) ≤ orDefault (some (overlap : Int)) p.defaultChunkOverlap) (text : String) :
    p.chunkText text (some size) (some overlap) = .error (.valueError "chunk_overlap must be smaller than chunk_size") := by
  have given : orDefault (some (size : Int)) p.defaultChunkSize = size := if_neg (by omega)
  have counted : ¬(size : Int) ≤ 0 := by omega
  simp only [chunkText,given,if_neg counted,dif_neg (Int.not_lt.mpr large)]

end

/-- The chunks of the given size and overlap cover the words of the text, except that an explicit zero
overlap gives way to the default: then either the default is zero too, or it leaves the call accepted and
one chunk holds all words. -/
theorem chunk_text_covers_iff (p : TextProcessor) (text : String) (size overlap : Nat) (positive : 0 < size)
    (smaller : overlap < size) :
    (∃ chunks, p.chunkText text (some size) (some overlap) = .ok chunks ∧
      Covers size overlap (words text) (chunks.map words)) ↔
    overlap ≠ 0 ∨ p.defaultChunkOverlap = 0 ∨ (p.defaultChunkOverlap < size ∧ (words text).length ≤ size) := by
  obtain ⟨d,default⟩ := Int.eq_ofNat_of_zero_le p.nonneg
  by_cases zero : overlap = 0
  · subst zero
    have forced : orDefault (some ((0 : Nat) : Int)) p.defaultChunkOverlap = d := default
    by_cases less : d < size
    · obtain ⟨chunks,ran,covers,several,single⟩ := chunkText_covers text positive forced less
      constructor
      · rintro ⟨chunks',ran',plain⟩
        cases Except.ok.inj (ran.symm.trans ran')
        by_contra fails
        obtain ⟨-,nonzero,long⟩ : ¬(0 : Nat) ≠ 0 ∧ p.defaultChunkOverlap ≠ 0 ∧ size < (words text).length := by omega
        obtain ⟨first,next,rest,parts⟩ := several long
        rw [parts] at covers plain
        exact covers_overlap (by omega) covers plain.whole
      · intro condition
        refine ⟨chunks,ran,?_⟩
        by_cases none : d = 0
        · exact none ▸ covers
        · exact single (by omega) 0
    · have large : (size : Int) ≤ orDefault (some ((0 : Nat) : Int)) p.defaultChunkOverlap := by omega
      constructor
      · rintro ⟨chunks,ran,-⟩
        rw [chunkText_refused positive large text] at ran
        cases ran
      · omega
  · have forced : orDefault (some (overlap : Int)) p.defaultChunkOverlap = overlap := if_neg (by omega)
    obtain ⟨chunks,ran,covers,-,-⟩ := chunkText_covers text positive forced smaller
    exact iff_of_true ⟨chunks,ran,covers⟩ (.inl zero)

theorem chunk_text_covers_pairs : 0 < 2 ∧ 1 < 2 ∧
    ((∃ chunks, chunkText {} "a b c" (some 2) (some 1) = .ok chunks ∧ Covers 2 1 (words "a b c") (chunks.map words)) ↔
      1 ≠ 0 ∨ (200 : Int) = 0 ∨ ((200 : Int) < 2 ∧ (words "a b c").length ≤ 2)) :=
  ⟨by decide,by decide,chunk_text_covers_iff {} "a b c" 2 1 (by decide) (by decide)⟩

/-- One word a chunk and no overlap: the zero becomes the default of 200, and the call is refused. -/
theorem zero_overlap_refused : ¬∀ (p : TextProcessor) (text : String) (size overlap : Nat), 0 < size → overlap < size →
    ∃ chunks, p.chunkText text (some size) (some overlap) = .ok chunks ∧
      Covers size overlap (words text) (chunks.map words) := by
  intro covered
  obtain ⟨chunks,ran,-⟩ := covered {} "a b" 1 0 (by decide) (by decide)
  rw [chunkText_refused (by decide) (by decide) "a b"] at ran
  cases ran

end TextProcessor

end IceOS
