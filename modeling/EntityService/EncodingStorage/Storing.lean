import EntityService.EncodingStorage.Pipeline
import EntityService.Lib.Streams

/-! What storing a stream of encodings adds to the database. The groups in which the rows are
inserted leave no trace. -/
namespace EntityService
open Lib

namespace Database

def encodingRow (dpId : DpId) (item : Item) : EncodingRow :=
  ⟨(dpId <<< 32) + item.1, item.2.1, dpId⟩

/-- The rows that list an encoding under each of its block names. -/
def blockRows (lookup : Dict BlockName BlockId) (dpId : DpId) (item : Item) :
    List EncodingBlockRow :=
  item.2.2.map fun name => ⟨dpId, item.1, (dpId <<< 32) + item.1, (lookup.get? name).getD 0⟩

def addItems (db : Database) (dpId : DpId) (items : List Item) : Database :=
  { db with
    encodings := db.encodings ++ items.map (encodingRow dpId)
    encodingblocks := db.encodingblocks ++ items.flatMap (blockRows (db.blockLookup dpId) dpId) }

/-- The constraints of the tables let the rows of the items in. -/
structure Admits (db : Database) (dpId : DpId) (items : List Item) : Prop where
  nodup : (items.map fun item => (dpId <<< 32) + item.1).Nodup
  fresh : ∀ item ∈ items, (dpId <<< 32) + item.1 ∉ db.encodings.map EncodingRow.encodingId
  small : ∀ item ∈ items, (dpId <<< 32) + item.1 < 2 ^ 63
  known : ∀ item ∈ items, ∀ name ∈ item.2.2, name ∈ (db.blockLookup dpId).keys
  int4 : ∀ item ∈ items, item.2.2 ≠ [] → Int4 item.1

@[simp] theorem addItems_nil (db : Database) (dpId : DpId) : db.addItems dpId [] = db := by
  simp [addItems]

@[simp] theorem blockLookup_addItems (db : Database) (dpId dpId' : DpId) (items : List Item) :
    (db.addItems dpId items).blockLookup dpId' = db.blockLookup dpId' := rfl

theorem addItems_append (db : Database) (dpId : DpId) (items items' : List Item) :
    db.addItems dpId (items ++ items') = (db.addItems dpId items).addItems dpId items' := by
  simp [addItems, blockLookup, getBlockMetadata]

theorem admits_nil (db : Database) (dpId : DpId) : db.Admits dpId [] where
  nodup := List.nodup_nil
  fresh := by simp
  small := by simp
  known := by simp
  int4 := by simp

theorem admits_append {db : Database} {dpId : DpId} {items items' : List Item} :
    db.Admits dpId (items ++ items') ↔
      db.Admits dpId items ∧ (db.addItems dpId items).Admits dpId items' := by
  constructor
  · intro h
    have hnodup := h.nodup
    rw [List.map_append, List.nodup_append] at hnodup
    refine ⟨⟨hnodup.1, ?_, ?_, ?_, ?_⟩, ⟨hnodup.2.1, ?_, ?_, ?_, ?_⟩⟩
    · exact fun item hi => h.fresh item (List.mem_append_left _ hi)
    · exact fun item hi => h.small item (List.mem_append_left _ hi)
    · exact fun item hi => h.known item (List.mem_append_left _ hi)
    · exact fun item hi => h.int4 item (List.mem_append_left _ hi)
    · intro item hi hm
      have hold := h.fresh item (List.mem_append_right _ hi)
      simp only [addItems, List.map_append, List.map_map, List.mem_append] at hm
      rcases hm with hm | hm
      · exact hold hm
      · exact hnodup.2.2 _ hm _ (List.mem_map_of_mem hi) rfl
    · exact fun item hi => h.small item (List.mem_append_right _ hi)
    · exact fun item hi => h.known item (List.mem_append_right _ hi)
    · exact fun item hi => h.int4 item (List.mem_append_right _ hi)
  · rintro ⟨h, h'⟩
    have hfresh : ∀ item ∈ items',
        (dpId <<< 32) + item.1 ∉ db.encodings.map EncodingRow.encodingId ∧
        (dpId <<< 32) + item.1 ∉ items.map fun item => (dpId <<< 32) + item.1 := by
      intro item hi
      have hm := h'.fresh item hi
      simp only [addItems, List.map_append, List.map_map, List.mem_append, not_or] at hm
      exact hm
    refine ⟨?_, ?_, ?_, ?_, ?_⟩
    · rw [List.map_append, List.nodup_append]
      refine ⟨h.nodup, h'.nodup, ?_⟩
      rintro a ha b hb rfl
      obtain ⟨item, hi, rfl⟩ := List.mem_map.mp hb
      exact (hfresh item hi).2 ha
    · intro item hi
      rcases List.mem_append.mp hi with hi | hi
      · exact h.fresh item hi
      · exact (hfresh item hi).1
    · intro item hi
      rcases List.mem_append.mp hi with hi | hi
      · exact h.small item hi
      · exact h'.small item hi
    · intro item hi
      rcases List.mem_append.mp hi with hi | hi
      · exact h.known item hi
      · exact h'.known item hi
    · intro item hi
      rcases List.mem_append.mp hi with hi | hi
      · exact h.int4 item hi
      · exact h'.int4 item hi

theorem encodingBlockRows_eq_ok {lookup : Dict BlockName BlockId} {dpId : DpId} {item : Item}
    {rows : List EncodingBlockRow} :
    encodingBlockRows lookup dpId item.1 ((dpId <<< 32) + item.1) item.2.2 = .ok rows ↔
      (∀ name ∈ item.2.2, name ∈ lookup.keys) ∧ rows = blockRows lookup dpId item := by
  refine mapM_eq_ok_map fun name row => ?_
  simp only [bind_eq_ok, orRaise_eq_ok, pure_eq_ok, Except.ok.injEq, Dict.mem_keys_iff]
  constructor
  · rintro ⟨id, hid, rfl⟩
    simp [hid]
  · rintro ⟨⟨id, hid⟩, rfl⟩
    exact ⟨id, hid, by simp [hid]⟩

/-- The entity ids in the rows are those of the items that are listed under some name. -/
theorem int4_blockRows_iff {lookup : Dict BlockName BlockId} {dpId : DpId} {items : List Item} :
    (∀ r ∈ (items.map (blockRows lookup dpId)).flatten, Int4 r.entityId) ↔
      ∀ item ∈ items, item.2.2 ≠ [] → Int4 item.1 := by
  simp only [List.mem_flatten, List.mem_map, blockRows]
  constructor
  · intro h item hi hne
    obtain ⟨name, hname⟩ := List.exists_mem_of_ne_nil _ hne
    exact h _ ⟨_, ⟨item, hi, rfl⟩, List.mem_map_of_mem hname⟩
  · rintro h r ⟨_, ⟨item, hi, rfl⟩, hr⟩
    obtain ⟨name, hname, rfl⟩ := List.mem_map.mp hr
    exact h item hi (List.ne_nil_of_mem hname)

/-- Inserting a group either adds the rows of all its items or raises. -/
theorem insertEncodingsIntoBlocks_eq_ok {db db' : Database} {dpId : DpId} {items : List Item} :
    db.insertEncodingsIntoBlocks dpId (items.map fun t => t.2.2) (items.map fun t => t.1)
        (items.map fun t => t.2.1) = .ok db' ↔
      db.Admits dpId items ∧ db' = db.addItems dpId items := by
  have hids : computeEncodingIds (items.map fun t => t.1) dpId =
      items.map fun t => (dpId <<< 32) + t.1 := by
    simp [computeEncodingIds]
  have hrows : (((items.map fun t => (dpId <<< 32) + t.1).zip (items.map fun t => t.2.1)).map
      fun p => (⟨p.1, p.2, dpId⟩ : EncodingRow)) = items.map (encodingRow dpId) := by
    rw [List.zip_map', List.map_map]
    rfl
  have hzip : (items.map fun t => t.1).zip
      ((items.map fun t => (dpId <<< 32) + t.1).zip (items.map fun t => t.2.2)) =
      items.map fun t => (t.1, (dpId <<< 32) + t.1, t.2.2) := by
    rw [List.zip_map', List.zip_map']
  have hdata : ∀ rows, ((items.map fun t => (t.1, (dpId <<< 32) + t.1, t.2.2)).mapM fun p =>
      encodingBlockRows (db.blockLookup dpId) dpId p.1 p.2.1 p.2.2) = .ok rows ↔
      (∀ item ∈ items, ∀ name ∈ item.2.2, name ∈ (db.blockLookup dpId).keys) ∧
        rows = items.map (blockRows (db.blockLookup dpId) dpId) := by
    intro rows
    rw [List.mapM_map]
    exact mapM_eq_ok_map fun item _ => encodingBlockRows_eq_ok
  unfold insertEncodingsIntoBlocks insertEncodings insertEncodingblocks
  simp only [hids, hrows, hzip, bind_eq_ok, hdata, ensure_eq_ok, pure_eq_ok, Except.ok.injEq,
    exists_const, List.map_map, List.forall_mem_map, Function.comp_def, encodingRow]
  constructor
  · rintro ⟨_, ⟨⟨hnodup, hfresh⟩, hsmall, rfl⟩, _, ⟨hknown, rfl⟩, hint, rfl⟩
    exact ⟨⟨hnodup, hfresh, hsmall, hknown, int4_blockRows_iff.mp hint⟩, rfl⟩
  · rintro ⟨h, rfl⟩
    exact ⟨_, ⟨⟨h.nodup, h.fresh⟩, h.small, rfl⟩, _, ⟨h.known, rfl⟩,
      int4_blockRows_iff.mpr h.int4, rfl⟩

end Database

/-- The groups of a stream put together are the stream. -/
theorem flatten_grouper {α : Type} {n : ℕ} (hn : 1 ≤ n) (l : List α) :
    ((grouper n l).map List.reduceOption).flatten = l := by
  have hlen : l.length ≤ (l.length + n - 1) / n * n := by
    have hmod := Nat.div_add_mod (l.length + n - 1) n
    have hlt := Nat.mod_lt (l.length + n - 1) (show 0 < n by omega)
    rw [Nat.mul_comm] at hmod
    omega
  unfold grouper
  rw [List.map_map]
  simp only [Function.comp_def, reduceOption_window, flatten_windows]
  exact List.take_of_length_le hlen

/-- Taking a group apart leaves out the filling and raises what its elements raise. -/
theorem mapM_reduceOption {group : List (Option (Except Error Item))} {c : List Item → Prop} :
    (∃ opts, (group.mapM fun item : Option (Except Error Item) =>
        item.elim (.ok none) (Except.map some)) = .ok opts ∧ c opts.reduceOption) ↔
      ∃ items, group.reduceOption.mapM id = .ok items ∧ c items := by
  induction group generalizing c with
  | nil => simp [List.reduceOption]
  | cons item group ih =>
    simp only [List.mapM_cons, bind_eq_ok, pure_eq_ok, Except.ok.injEq]
    rcases item with _ | e | item
    · rw [List.reduceOption_cons_of_none, ← ih]
      constructor
      · rintro ⟨_, ⟨opt, hopt, opts, hopts, rfl⟩, hc⟩
        cases hopt
        exact ⟨opts, hopts, hc⟩
      · rintro ⟨opts, hopts, hc⟩
        exact ⟨_, ⟨none, rfl, opts, hopts, rfl⟩, hc⟩
    · rw [List.reduceOption_cons_of_some, List.mapM_cons]
      constructor
      · rintro ⟨_, ⟨opt, hopt, -⟩, -⟩
        cases hopt
      · rintro ⟨items, hitems, -⟩
        cases hitems
    · have h := ih (c := fun items => c (item :: items))
      rw [List.reduceOption_cons_of_some, List.mapM_cons]
      constructor
      · rintro ⟨_, ⟨opt, hopt, opts, hopts, rfl⟩, hc⟩
        cases hopt
        obtain ⟨items, hitems, hc⟩ := h.mp ⟨opts, hopts, hc⟩
        exact ⟨item :: items, by simp [hitems], hc⟩
      · rintro ⟨items, hitems, hc⟩
        obtain ⟨_, ha, hitems⟩ := bind_eq_ok.mp hitems
        cases ha
        obtain ⟨rest, hrest, hitems⟩ := bind_eq_ok.mp hitems
        cases hitems
        obtain ⟨opts, hopts, hc⟩ := h.mpr ⟨rest, hrest, hc⟩
        exact ⟨_, ⟨some item, rfl, opts, hopts, rfl⟩, hc⟩

theorem storeGroup_eq_ok {dpId : DpId} {db db' : Database}
    {group : List (Option (Except Error Item))} :
    storeGroup dpId db group = .ok db' ↔ ∃ items, group.reduceOption.mapM id = .ok items ∧
      db.Admits dpId items ∧ db' = db.addItems dpId items := by
  unfold storeGroup transpose
  simp only [bind_eq_ok, ensure_eq_ok, List.length_map, true_and, exists_const,
    Database.insertEncodingsIntoBlocks_eq_ok]
  exact mapM_reduceOption (c := fun items => db.Admits dpId items ∧ db' = db.addItems dpId items)

theorem foldlM_storeGroup_eq_ok {dpId : DpId} {db db' : Database}
    {groups : List (List (Option (Except Error Item)))} :
    groups.foldlM (storeGroup dpId) db = .ok db' ↔
      ∃ items, ((groups.map List.reduceOption).flatten).mapM id = .ok items ∧
        db.Admits dpId items ∧ db' = db.addItems dpId items := by
  induction groups generalizing db with
  | nil => simp [Database.admits_nil, eq_comm]
  | cons group groups ih =>
    rw [List.foldlM_cons, bind_eq_ok, List.map_cons, List.flatten_cons, List.mapM_append]
    simp only [bind_eq_ok, storeGroup_eq_ok, ih, pure_eq_ok, Except.ok.injEq]
    constructor
    · rintro ⟨_, ⟨items, hitems, hadm, rfl⟩, rest, hrest, hadm', rfl⟩
      exact ⟨items ++ rest, ⟨items, hitems, rest, hrest, rfl⟩,
        Database.admits_append.mpr ⟨hadm, hadm'⟩, (db.addItems_append dpId items rest).symm⟩
    · rintro ⟨_, ⟨items, hitems, rest, hrest, rfl⟩, hadm, rfl⟩
      obtain ⟨hadm, hadm'⟩ := Database.admits_append.mp hadm
      exact ⟨_, ⟨items, hitems, hadm, rfl⟩, rest, hrest, hadm',
        db.addItems_append dpId items rest⟩

/-- Storing a stream adds the rows of everything it yields, or raises. -/
theorem storeEncodingsInDb_eq_ok {settings : Settings} {db db' : Database} {dpId : DpId}
    {encodings : Generator Item} {encodingSize n : ℤ}
    (hn : settings.estimateGroupSize encodingSize = .ok n) (hpos : 1 ≤ n) :
    storeEncodingsInDb settings db dpId encodings encodingSize = .ok db' ↔
      ∃ items, encodings.mapM id = .ok items ∧ db.Admits dpId items ∧
        db' = db.addItems dpId items := by
  unfold storeEncodingsInDb
  rw [hn, ok_bind, foldlM_storeGroup_eq_ok, flatten_grouper (by omega)]

/-- With groups of no elements nothing is asked for. -/
theorem storeEncodingsInDb_of_nonpos {settings : Settings} {db db' : Database} {dpId : DpId}
    {encodings : Generator Item} {encodingSize n : ℤ}
    (hn : settings.estimateGroupSize encodingSize = .ok n) (hpos : n ≤ 0) :
    storeEncodingsInDb settings db dpId encodings encodingSize = .ok db' ↔ db' = db := by
  have hzero : n.toNat = 0 := by omega
  unfold storeEncodingsInDb grouper
  rw [hn, ok_bind, hzero]
  simp [eq_comm]

/-- Storing a stream adds the rows of what was asked for: everything, or nothing when the
group size is not positive. -/
theorem storeEncodingsInDb_ok {settings : Settings} {db db' : Database} {dpId : DpId}
    {encodings : Generator Item} {encodingSize : ℤ}
    (h : storeEncodingsInDb settings db dpId encodings encodingSize = .ok db') :
    ∃ n items, settings.estimateGroupSize encodingSize = .ok n ∧
      (1 ≤ n → encodings.mapM id = .ok items) ∧ (n ≤ 0 → items = []) ∧
      db.Admits dpId items ∧ db' = db.addItems dpId items := by
  obtain ⟨n, hn, -⟩ := bind_eq_ok.mp h
  rcases lt_or_ge 0 n with hpos | hpos
  · obtain ⟨items, hitems, hadm, rfl⟩ := (storeEncodingsInDb_eq_ok hn hpos).mp h
    exact ⟨n, items, hn, fun _ => hitems, fun hle => absurd hle (by omega), hadm, rfl⟩
  · obtain rfl := (storeEncodingsInDb_of_nonpos hn hpos).mp h
    exact ⟨n, [], hn, fun hle => absurd hle (by omega), fun _ => rfl, db'.admits_nil dpId,
      (db'.addItems_nil dpId).symm⟩

end EntityService
