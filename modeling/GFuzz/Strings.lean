import Mathlib

/-!
# `std::string`, `std::getline` and `std::map<std::string, V>`

The two LLVM passes keep their state in ordered maps keyed by strings, and the
order is observable: `exportKeyVariables` writes the manifest in key order, and
the instrumenter numbers the manifest's lines in file order.  A `std::string`
is modelled by the characters it holds, compared lexicographically, which is
the order of `std::char_traits<char>` on the bytes of UTF-8 text.

`StrMap V` is the map's red-black tree read in order: a list of entries with
strictly increasing keys.  The invariant is a field, so every map the model
builds has distinct keys; `insert` is `m[k] = v`, `erase` is `m.erase(k)`,
`find?` is `m.count(k) > 0 ? m[k] : ...`, and `mapVal` is an in-place loop over
`entry.second`.

## Results

* `find?_insert`, `find?_erase`, `find?_mapVal`: each operation acts on one key
  and leaves the others alone.
* `getLines_lines`: reading back lines that were each written with a final
  `'\n'`, and hold none inside, gives the lines.
-/

namespace GFuzz

/-- A `std::string`. -/
abbrev Str := List Char

/-- A `std::map<std::string, V>`, as its entries in key order. -/
structure StrMap (V : Type*) where
  entries : List (Str × V)
  sorted : entries.Sorted fun a b => a.1 < b.1

namespace StrMap

variable {V W : Type*}

/-- The empty map. -/
def empty : StrMap V := ⟨[], List.sorted_nil⟩

/-- The value at `k`, if any. -/
def find? (m : StrMap V) (k : Str) : Option V := (m.entries.find? fun e => e.1 = k).map (·.2)

/-- `m.count(k) > 0`. -/
def contains (m : StrMap V) (k : Str) : Bool := (m.find? k).isSome

/-- The tree insertion: replace the entry at `k`, or put a new one in its place. -/
def insertAux (k : Str) (v : V) : List (Str × V) → List (Str × V)
  | [] => [(k, v)]
  | e :: l =>
    if k < e.1 then (k, v) :: e :: l
    else if k = e.1 then (k, v) :: l
    else e :: insertAux k v l

theorem mem_insertAux {k : Str} {v : V} {l : List (Str × V)} {x : Str × V}
    (hx : x ∈ insertAux k v l) : x = (k, v) ∨ x ∈ l := by
  induction l with
  | nil => simpa [insertAux] using hx
  | cons e l ih =>
    unfold insertAux at hx
    split_ifs at hx
    · simpa using hx
    · rcases List.mem_cons.mp hx with h | h
      · exact .inl h
      · exact .inr (List.mem_cons_of_mem _ h)
    · rcases List.mem_cons.mp hx with h | h
      · exact .inr (h ▸ List.mem_cons_self _ _)
      · exact (ih h).imp_right (List.mem_cons_of_mem _)

theorem sorted_insertAux (k : Str) (v : V) {l : List (Str × V)}
    (hl : l.Sorted fun a b => a.1 < b.1) : (insertAux k v l).Sorted fun a b => a.1 < b.1 := by
  induction l with
  | nil => exact List.sorted_singleton _
  | cons e l ih =>
    obtain ⟨he, hl⟩ := List.sorted_cons.mp hl
    unfold insertAux
    split_ifs with h1 h2
    · -- before the first greater key
      refine List.sorted_cons.mpr ⟨fun b hb => ?_, List.sorted_cons.mpr ⟨he, hl⟩⟩
      rcases List.mem_cons.mp hb with rfl | hb
      · exact h1
      · exact lt_trans h1 (he b hb)
    · -- in place of an equal key
      exact List.sorted_cons.mpr ⟨fun b hb => h2 ▸ he b hb, hl⟩
    · -- past a smaller key
      have hlt : e.1 < k := lt_of_le_of_ne (not_lt.mp h1) (Ne.symm h2)
      refine List.sorted_cons.mpr ⟨fun b hb => ?_, ih hl⟩
      rcases mem_insertAux hb with rfl | hb
      · exact hlt
      · exact he b hb

/-- `m[k] = v`. -/
def insert (m : StrMap V) (k : Str) (v : V) : StrMap V :=
  ⟨insertAux k v m.entries, sorted_insertAux k v m.sorted⟩

/-- `m.erase(k)`. -/
def erase (m : StrMap V) (k : Str) : StrMap V :=
  ⟨m.entries.filter fun e => e.1 ≠ k, m.sorted.sublist (List.filter_sublist _)⟩

/-- A loop over the entries that rewrites each value in place. -/
def mapVal (f : Str → V → W) (m : StrMap V) : StrMap W :=
  ⟨m.entries.map fun e => (e.1, f e.1 e.2), List.pairwise_map.mpr (m.sorted.imp id)⟩

/-! ## Lookups -/

theorem find?_insertAux (k j : Str) (v : V) (l : List (Str × V)) :
    ((insertAux k v l).find? fun e => e.1 = j).map (·.2) =
      if j = k then some v else (l.find? fun e => e.1 = j).map (·.2) := by
  induction l with
  | nil => by_cases h : k = j <;> simp [insertAux, h, eq_comm]
  | cons e l ih =>
    unfold insertAux
    by_cases hj : j = k
    · subst hj
      rw [if_pos rfl] at ih ⊢
      split_ifs with h1 h2
      · simp
      · simp
      · rw [List.find?_cons_of_neg _ (by simpa using Ne.symm h2), ih]
    · split_ifs with h1 h2
      · simp [Ne.symm hj]
      · subst h2; simp [Ne.symm hj, hj]
      · by_cases he : e.1 = j <;> simp [he, ih, hj]

@[simp] theorem find?_insert (m : StrMap V) (k j : Str) (v : V) :
    (m.insert k v).find? j = if j = k then some v else m.find? j :=
  find?_insertAux k j v m.entries

@[simp] theorem find?_empty (j : Str) : (empty : StrMap V).find? j = none := rfl

@[simp] theorem find?_erase (m : StrMap V) (k j : Str) :
    (m.erase k).find? j = if j = k then none else m.find? j := by
  unfold erase find?
  split_ifs with h
  · subst h; simp
  · simp only [List.find?_filter]
    congr 2
    funext e
    by_cases he : e.1 = j <;> simp [he, h]

@[simp] theorem find?_mapVal (f : Str → V → W) (m : StrMap V) (j : Str) :
    (m.mapVal f).find? j = (m.find? j).map (f j) := by
  unfold mapVal find?
  rw [List.find?_map]
  cases h : m.entries.find? (fun e => e.1 = j) with
  | none => simp [Function.comp_def, h]
  | some e =>
    have hj : e.1 = j := by simpa using List.find?_some h
    simp [Function.comp_def, h, hj]

theorem contains_eq_any (m : StrMap V) (k : Str) :
    m.contains k = m.entries.any fun e => e.1 = k := by
  rw [Bool.eq_iff_iff]
  simp only [contains, find?, Option.isSome_map', List.find?_isSome, decide_eq_true_eq,
    List.any_eq_true]

/-- A key found maps to an entry of the map. -/
theorem mem_of_find?_eq_some {m : StrMap V} {k : Str} {v : V} (h : m.find? k = some v) :
    (k, v) ∈ m.entries := by
  obtain ⟨e, he, rfl⟩ := Option.map_eq_some'.mp h
  have hk : e.1 = k := by simpa using List.find?_some he
  exact hk ▸ List.mem_of_find?_eq_some he

/-! ## The values of an insertion -/

/-- Insertion keeps every value but the one it overwrites, and adds its own. -/
theorem map_snd_insertAux_subperm (k : Str) (v : V) (l : List (Str × V)) :
    ((insertAux k v l).map (·.2)).Subperm (v :: l.map (·.2)) := by
  induction l with
  | nil => exact List.Subperm.refl _
  | cons e l ih =>
    unfold insertAux
    split_ifs
    · exact List.Subperm.refl _
    · exact (List.sublist_cons_self _ _).cons₂ v |>.subperm
    · simp only [List.map_cons]
      exact ((List.subperm_cons e.2).mpr ih).trans (List.Perm.swap v e.2 _).subperm

end StrMap

/-! ## Loops -/

/-- A loop over `l` keeps a property that every round keeps. -/
theorem foldl_preserves_mem {α β : Type*} (P : β → Prop) (f : β → α → β) {l : List α}
    (hf : ∀ a ∈ l, ∀ b, P b → P (f b a)) {b : β} (hb : P b) : P (l.foldl f b) := by
  induction l generalizing b with
  | nil => exact hb
  | cons a l ih =>
    exact ih (fun a' ha' => hf a' (List.mem_cons_of_mem _ ha')) (hf a (List.mem_cons_self _ _) b hb)

/-! ## `std::getline` -/

/-- The loop `while (std::getline(infile, line))`, with `cur` the line read so far,
reversed: a `'\n'` ends a line, and a last line without one is read unless it is
empty. -/
def getLinesAux : Str → Str → List Str
  | [], cur => if cur = [] then [] else [cur.reverse]
  | c :: s, cur => if c = '\n' then cur.reverse :: getLinesAux s [] else getLinesAux s (c :: cur)

/-- The lines `std::getline` reads from a file's contents. -/
def getLines (s : Str) : List Str := getLinesAux s []

theorem getLinesAux_append_line {l : Str} (hl : '\n' ∉ l) (rest cur : Str) :
    getLinesAux (l ++ '\n' :: rest) cur = (cur.reverse ++ l) :: getLinesAux rest [] := by
  induction l generalizing cur with
  | nil => simp [getLinesAux]
  | cons c l ih =>
    have hc : c ≠ '\n' := fun h => hl (h ▸ List.mem_cons_self _ _)
    rw [List.cons_append, getLinesAux, if_neg hc, ih (fun h => hl (List.mem_cons_of_mem _ h))]
    simp

/-- **Lines written with a final newline read back as written.** -/
theorem getLines_lines (ls : List Str) (h : ∀ l ∈ ls, '\n' ∉ l) :
    getLines (ls.flatMap fun l => l ++ ['\n']) = ls := by
  induction ls with
  | nil => rfl
  | cons l ls ih =>
    rw [List.flatMap_cons, List.append_assoc, List.singleton_append, getLines,
      getLinesAux_append_line (h l (List.mem_cons_self _ _)), List.reverse_nil, List.nil_append]
    exact congrArg _ (ih fun l' hl' => h l' (List.mem_cons_of_mem _ hl'))

end GFuzz
