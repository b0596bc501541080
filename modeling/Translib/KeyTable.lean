import Mathlib.Tactic

/-!
# Tables with one entry for each key

`emplace` leaves an entry that is there as it is, `assign` replaces it. What a table does is
what `find` tells of every key.
-/

namespace Translib

structure KeyTable (κ β : Type*) where
  entries : List (κ × β)
  unique : (entries.map Prod.fst).Nodup
  deriving DecidableEq

namespace KeyTable

variable {κ β γ : Type*}

def empty : KeyTable κ β := ⟨[],List.nodup_nil⟩

/-- Keep the entries `p` holds of. -/
def eraseUnless (p : κ × β → Bool) (t : KeyTable κ β) : KeyTable κ β where
  entries := t.entries.filter p
  unique := t.unique.sublist (List.filter_sublist.map _)

def mapValues (f : β → γ) (t : KeyTable κ β) : KeyTable κ γ where
  entries := t.entries.map fun i => (i.1,f i.2)
  unique := by
    rw [List.map_map]
    exact t.unique

theorem eq_of_entries {t t' : KeyTable κ β} (h : t.entries = t'.entries) : t = t' := by
  obtain ⟨entries,unique⟩ := t
  cases h
  rfl

theorem eq_of_mem {t : KeyTable κ β} {i j : κ × β} (hi : i ∈ t.entries) (hj : j ∈ t.entries)
    (h : i.1 = j.1) : i = j :=
  List.inj_on_of_nodup_map t.unique hi hj h

theorem mem_eraseUnless {p : κ × β → Bool} {t : KeyTable κ β} {i : κ × β} :
    i ∈ (t.eraseUnless p).entries ↔ i ∈ t.entries ∧ p i = true :=
  List.mem_filter

theorem eraseUnless_mapValues (p : κ × γ → Bool) (f : β → γ) (t : KeyTable κ β) :
    (t.mapValues f).eraseUnless p = (t.eraseUnless fun i => p (i.1,f i.2)).mapValues f :=
  eq_of_entries List.filter_map

theorem mapValues_congr {f g : β → γ} {t : KeyTable κ β} (h : ∀ i ∈ t.entries, f i.2 = g i.2) :
    t.mapValues f = t.mapValues g :=
  eq_of_entries (List.map_congr_left fun i hi => by rw [h i hi])

variable [DecidableEq κ]

def find (k : κ) (t : KeyTable κ β) : Option β := (t.entries.find? fun i => i.1 = k).map Prod.snd

def erase (k : κ) (t : KeyTable κ β) : KeyTable κ β := t.eraseUnless fun i => i.1 ≠ k

def emplace (k : κ) (v : β) (t : KeyTable κ β) : KeyTable κ β :=
  if h : k ∈ t.entries.map Prod.fst then t
  else
    { entries := t.entries ++ [(k,v)]
      unique := by
        rw [List.map_append]
        exact t.unique.append (List.nodup_singleton k) (by simpa using h) }

def assign (k : κ) (v : β) (t : KeyTable κ β) : KeyTable κ β := (t.erase k).emplace k v

def modify (k : κ) (f : β → β) (t : KeyTable κ β) : KeyTable κ β where
  entries := t.entries.map fun i => if i.1 = k then (i.1,f i.2) else i
  unique := by
    have hkeys : (t.entries.map fun i => if i.1 = k then (i.1,f i.2) else i).map Prod.fst =
        t.entries.map Prod.fst := by
      rw [List.map_map]
      refine List.map_congr_left fun i _ => ?_
      simp only [Function.comp_apply]
      split_ifs <;> rfl
    rw [hkeys]
    exact t.unique

theorem mem_modify {k : κ} {f : β → β} {t : KeyTable κ β} {i : κ × β} :
    i ∈ (t.modify k f).entries ↔
      i ∈ t.entries ∧ i.1 ≠ k ∨ ∃ v, (k,v) ∈ t.entries ∧ i = (k,f v) := by
  simp only [modify,List.mem_map]
  constructor
  · rintro ⟨j,hj,rfl⟩
    split_ifs with hk
    · subst hk
      exact .inr ⟨j.2,hj,rfl⟩
    · exact .inl ⟨hj,hk⟩
  · rintro (⟨hi,hne⟩ | ⟨v,hv,rfl⟩)
    · exact ⟨i,hi,if_neg hne⟩
    · exact ⟨(k,v),hv,by simp⟩

theorem find_eq_some {k : κ} {v : β} {t : KeyTable κ β} :
    t.find k = some v ↔ (k,v) ∈ t.entries := by
  constructor
  · intro h
    obtain ⟨⟨k',v'⟩,hfind,hv⟩ := Option.map_eq_some_iff.mp h
    have hk : k' = k := by simpa using List.find?_some hfind
    subst hk
    cases hv
    exact List.mem_of_find?_eq_some hfind
  · intro h
    have hsome : (t.entries.find? fun i => decide (i.1 = k)).isSome :=
      List.find?_isSome.mpr ⟨(k,v),h,by simp⟩
    obtain ⟨i,hfind⟩ := Option.isSome_iff_exists.mp hsome
    have hk : i.1 = k := by simpa using List.find?_some hfind
    have hi : i = (k,v) := eq_of_mem (List.mem_of_find?_eq_some hfind) h hk
    rw [find,hfind,hi]
    rfl

theorem find_eq_none {k : κ} {t : KeyTable κ β} :
    t.find k = none ↔ k ∉ t.entries.map Prod.fst := by
  rw [Option.eq_none_iff_forall_ne_some]
  constructor
  · intro h hmem
    obtain ⟨⟨k',v⟩,hi,rfl⟩ := List.mem_map.mp hmem
    exact h v (find_eq_some.mpr hi)
  · intro h v hv
    exact h (List.mem_map_of_mem (f := Prod.fst) (find_eq_some.mp hv))

theorem foldl_erase (keys : List κ) (t : KeyTable κ β) :
    keys.foldl (fun t k => t.erase k) t = t.eraseUnless fun i => decide (i.1 ∉ keys) := by
  induction keys generalizing t with
  | nil => exact eq_of_entries (by simp [eraseUnless])
  | cons k keys ih =>
    rw [List.foldl_cons,ih]
    refine eq_of_entries ?_
    simp only [erase,eraseUnless,List.filter_filter]
    refine List.filter_congr fun i _ => ?_
    rw [← Bool.decide_and]
    exact decide_eq_decide.mpr (by rw [List.mem_cons,not_or,and_comm])

/-- Where the entries with some property are erased by their keys, no other one is. -/
theorem foldl_erase_filter (p : κ × β → Bool) (t : KeyTable κ β) :
    ((t.entries.filter p).map Prod.fst).foldl (fun t k => t.erase k) t =
      t.eraseUnless fun i => !p i := by
  rw [foldl_erase]
  refine eq_of_entries (List.filter_congr fun i hi => ?_)
  cases hp : p i with
  | true => simpa using ⟨i.2,hi,hp⟩
  | false =>
    have hno : i.1 ∉ (t.entries.filter p).map Prod.fst := by
      rintro hmem
      obtain ⟨j,hj,hkey⟩ := List.mem_map.mp hmem
      obtain ⟨hj,hpj⟩ := List.mem_filter.mp hj
      rw [eq_of_mem hj hi hkey,hp] at hpj
      cases hpj
    simpa using hno

theorem find_erase (k k' : κ) (t : KeyTable κ β) :
    (t.erase k).find k' = if k' = k then none else t.find k' := by
  ext v
  rw [find_eq_some,erase,mem_eraseUnless]
  split_ifs with h
  · simp [h]
  · simp [h,find_eq_some]

theorem entries_emplace {k : κ} {v : β} {t : KeyTable κ β} (h : t.find k = none) :
    (t.emplace k v).entries = t.entries ++ [(k,v)] := by
  rw [emplace,dif_neg (find_eq_none.mp h)]

theorem emplace_of_find {k : κ} {v v' : β} {t : KeyTable κ β} (h : t.find k = some v') :
    t.emplace k v = t :=
  dif_pos (List.mem_map_of_mem (f := Prod.fst) (find_eq_some.mp h))

theorem mapValues_emplace (f : β → γ) (k : κ) (v : β) (t : KeyTable κ β) :
    (t.emplace k v).mapValues f = (t.mapValues f).emplace k (f v) := by
  have hkeys : (t.mapValues f).entries.map Prod.fst = t.entries.map Prod.fst := by
    simp [mapValues]
  cases h : t.find k with
  | some v' =>
    have hfind : (t.mapValues f).find k = some (f v') :=
      find_eq_some.mpr (List.mem_map_of_mem (f := fun i => (i.1,f i.2)) (find_eq_some.mp h))
    rw [emplace_of_find h,emplace_of_find hfind]
  | none =>
    have hfind : (t.mapValues f).find k = none := by
      rw [find_eq_none,hkeys]
      exact find_eq_none.mp h
    refine eq_of_entries ?_
    rw [entries_emplace hfind]
    simp [mapValues,entries_emplace h]

theorem mem_emplace {k : κ} {v : β} {t : KeyTable κ β} {i : κ × β} :
    i ∈ (t.emplace k v).entries ↔ i ∈ t.entries ∨ t.find k = none ∧ i = (k,v) := by
  cases h : t.find k with
  | none => simp [entries_emplace h]
  | some v' => simp [emplace_of_find h]

theorem find_emplace (k k' : κ) (v : β) (t : KeyTable κ β) :
    (t.emplace k v).find k' = (t.find k').or (if k' = k then some v else none) := by
  cases h : t.find k with
  | some v' =>
    rw [emplace_of_find h]
    split_ifs with hk
    · rw [hk,h]
      rfl
    · rw [Option.or_none]
  | none =>
    ext w
    rw [find_eq_some,mem_emplace,Option.or_eq_some_iff,find_eq_some]
    split_ifs with hk
    · subst hk
      simp [h,eq_comm]
    · simp [hk]

theorem find_assign (k k' : κ) (v : β) (t : KeyTable κ β) :
    (t.assign k v).find k' = if k' = k then some v else t.find k' := by
  rw [assign,find_emplace,find_erase]
  split_ifs <;> simp

end KeyTable
end Translib
