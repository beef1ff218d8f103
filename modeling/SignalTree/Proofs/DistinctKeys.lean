import Mathlib.Data.List.Nodup
import SignalTree.Json.Reader

/-! No object that is read holds a key twice, at any depth. -/
namespace SignalTree.Json

mutual

def DistinctKeys : Json → Prop
  | array items => AllDistinctKeys items
  | object members => (members.map Prod.fst).Nodup ∧ EachDistinctKeys members
  | _ => True

def AllDistinctKeys : List Json → Prop
  | [] => True
  | item :: rest => item.DistinctKeys ∧ AllDistinctKeys rest

def EachDistinctKeys : List (String × Json) → Prop
  | [] => True
  | (_, value) :: rest => value.DistinctKeys ∧ EachDistinctKeys rest

end

theorem eachDistinctKeys_iff {members : List (String × Json)} :
    EachDistinctKeys members ↔ ∀ m ∈ members, m.2.DistinctKeys := by
  induction members with
  | nil => simp [EachDistinctKeys]
  | cons m members ih => simp [EachDistinctKeys, ih]

def HasDistinctKeys (members : List (String × Json)) : Prop :=
  (members.map Prod.fst).Nodup ∧ EachDistinctKeys members

theorem hasDistinctKeys_nil : HasDistinctKeys [] := ⟨List.nodup_nil, trivial⟩

theorem mem_keys_insertMember {key k : String} {value : Json} {members : List (String × Json)} :
    k ∈ (insertMember key value members).map Prod.fst ↔ k = key ∨ k ∈ members.map Prod.fst := by
  induction members with
  | nil => simp [insertMember]
  | cons m members ih =>
    rw [insertMember]
    split
    · next h => simp [h]
    · simp only [List.map_cons, List.mem_cons, ih]
      exact or_left_comm

theorem HasDistinctKeys.insertMember {key : String} {value : Json}
    {members : List (String × Json)} (hm : HasDistinctKeys members) (hv : value.DistinctKeys) :
    HasDistinctKeys (insertMember key value members) := by
  induction members with
  | nil => exact ⟨List.nodup_singleton _, hv, trivial⟩
  | cons m members ih =>
    obtain ⟨hnodup, hm, hrest⟩ := hm
    obtain ⟨hnot, hnodup⟩ := List.nodup_cons.mp hnodup
    obtain ⟨hnodup', hrest'⟩ := ih ⟨hnodup, hrest⟩
    rw [Json.insertMember]
    split
    · exact ⟨List.nodup_cons.mpr ⟨hnot, hnodup⟩, hv, hrest⟩
    · next hne =>
      refine ⟨List.nodup_cons.mpr ⟨?_, hnodup'⟩, hm, hrest'⟩
      exact fun h => (mem_keys_insertMember.mp h).elim hne hnot

theorem distinctKeys_of_readNumber? {cs rest : List Char} {v : Json}
    (h : readNumber? cs = some (v, rest)) : v.DistinctKeys := by
  unfold readNumber? at h
  obtain ⟨_, -, h⟩ := Option.bind_eq_some_iff.mp h
  obtain ⟨_, -, h⟩ := Option.bind_eq_some_iff.mp h
  obtain ⟨_, -, h⟩ := Option.bind_eq_some_iff.mp h
  dsimp only at h
  split at h
  · rw [← (Prod.mk.inj (Option.some.inj h)).1]
    trivial
  · obtain ⟨_, -, h⟩ := Option.bind_eq_some_iff.mp h
    rw [← (Prod.mk.inj (Option.some.inj h)).1]
    trivial

/-- What the three readers of a value give with so much fuel. -/
structure ReadsDistinctKeys (fuel : Nat) : Prop where
  value : ∀ depth cs v rest, readValue? fuel depth cs = some (v, rest) → v.DistinctKeys
  items : ∀ depth cs items rest,
    readItems? fuel depth cs = some (items, rest) → AllDistinctKeys items
  members : ∀ depth before cs members rest, HasDistinctKeys before →
    readMembers? fuel depth before cs = some (members, rest) → HasDistinctKeys members

theorem readsDistinctKeys (fuel : Nat) : ReadsDistinctKeys fuel := by
  induction fuel with
  | zero => exact ⟨by simp [readValue?], by simp [readItems?], by simp [readMembers?]⟩
  | succ fuel ih =>
    constructor
    · intro depth cs v rest h
      rw [readValue?] at h
      split at h
      · cases h; trivial
      · cases h; trivial
      · cases h; trivial
      · obtain ⟨_, -, h⟩ := Option.map_eq_some_iff.mp h
        cases h; trivial
      · split at h
        · cases h
        · split at h
          · cases h; trivial
          · obtain ⟨_, hr, h⟩ := Option.map_eq_some_iff.mp h
            cases h
            exact ih.items _ _ _ _ hr
      · split at h
        · cases h
        · split at h
          · cases h; exact hasDistinctKeys_nil
          · obtain ⟨_, hr, h⟩ := Option.map_eq_some_iff.mp h
            cases h
            exact ih.members _ _ _ _ _ hasDistinctKeys_nil hr
      · exact distinctKeys_of_readNumber? h
    · intro depth cs items rest h
      rw [readItems?] at h
      obtain ⟨⟨item, more⟩, hitem, h⟩ := Option.bind_eq_some_iff.mp h
      have := ih.value _ _ _ _ hitem
      dsimp only at h
      split at h
      · cases h; exact ⟨this, trivial⟩
      · obtain ⟨⟨items, more⟩, hitems, h⟩ := Option.bind_eq_some_iff.mp h
        cases h
        exact ⟨this, ih.items _ _ _ _ hitems⟩
      · cases h
    · intro depth before cs members rest hb h
      rw [readMembers?] at h
      split at h
      · obtain ⟨⟨key, more⟩, -, h⟩ := Option.bind_eq_some_iff.mp h
        dsimp only at h
        split at h
        · obtain ⟨⟨value, more⟩, hvalue, h⟩ := Option.bind_eq_some_iff.mp h
          have hms : HasDistinctKeys (insertMember (String.ofList key) value before) :=
            hb.insertMember (ih.value _ _ _ _ hvalue)
          dsimp only at h
          split at h
          · cases h; exact hms
          · exact ih.members _ _ _ _ _ hms h
          · cases h
        · cases h
      · cases h

theorem distinctKeys_of_read? {text : String} {v : Json} (h : read? text = some v) :
    v.DistinctKeys := by
  unfold read? at h
  dsimp only at h
  split at h
  · next hv =>
    split at h
    · cases h
      exact (readsDistinctKeys _).value _ _ _ _ hv
    · cases h
  · cases h

end SignalTree.Json
