import Mathlib
import TaggedBytecode.Opcode.Document
import TaggedBytecode.Proofs.Opcode.Map
import TaggedBytecode.Proofs.Text.Integer

/-!
# Loading Opcode Documents

A key of an opcode document **denotes** an integer: an integer key itself, and a text key the
integer that it spells, with blanks around it. So `7`, `"7"`, `" 07 "` and `"+7"` are different
keys that denote the same integer. A document is loaded if its keys denote different numbers of
32 bits, and then nothing of it is lost. The keys that maps are written under are of this kind.

## Main definitions

* `OpcodeKey`, `OpcodeKey.Denotes` — keys and what they denote.
* `OpcodeDocument.entries` — the entries of a document in the order in which they are taken.
* `OpcodeMap.Fits` — an entry that can be added after others.
* `OpcodeMap.Loads` — a map has the metadata of some entries.

## Main results

* `OpcodeMap.Loads.exists_addEntry_iff`, `OpcodeMap.Loads.addEntry` — what one entry adds.
* `OpcodeMap.exists_foldlM_addEntry_iff`, `OpcodeMap.loads_of_foldlM` — what all entries add.
* `OpcodeMap.documents_load_exactly` — which documents are loaded, and as which map.
-/

namespace TaggedBytecode

/-! ### Keys -/

/-- A key of an opcode document. -/
inductive OpcodeKey where
  | id (n : ℤ)
  | text (s : String)
  deriving DecidableEq, Repr

namespace OpcodeKey

/-- The integer that a key **denotes**. -/
def Denotes : OpcodeKey → ℤ → Prop
  | id n, i => n = i
  | text s, i => ∃ left numeral right, s.toList = left ++ numeral ++ right ∧
      (∀ c ∈ left, Text.isBlank c = true) ∧ (∀ c ∈ right, Text.isBlank c = true) ∧
      Text.Spells numeral i

/-- The number of a key, as it is read. -/
def number? : OpcodeKey → Except Failure ℤ
  | id n => .ok n
  | text s => OpcodeMap.idOfText s

variable {key : OpcodeKey} {m n : ℤ} {s : String}

theorem denotes_text_iff : (text s).Denotes n ↔ Text.Spells (Text.trimChars s.toList) n :=
  Text.spells_trimChars_iff.symm

theorem Denotes.unique (hm : key.Denotes m) (hn : key.Denotes n) : m = n := by
  cases key with
  | id k => exact Eq.trans (Eq.symm hm) hn
  | text s => exact (denotes_text_iff.mp hm).unique (denotes_text_iff.mp hn)

/-- The text of a number denotes the number. -/
theorem denotes_toString_iff {k : ℕ} : (text (toString k)).Denotes n ↔ k = n := by
  have hself : (text (toString k)).Denotes k :=
    ⟨[], _, [], (List.append_nil _).symm, nofun, nofun, Text.spells_toString k⟩
  exact ⟨hself.unique, fun heq => heq ▸ hself⟩

theorem idOfText_eq_ok_iff :
    OpcodeMap.idOfText s = .ok n ↔ (text s).Denotes n ∧ -2 ^ 63 ≤ n ∧ n < 2 ^ 63 := by
  rw [denotes_text_iff, ← Text.int64?_eq_ok_iff, OpcodeMap.idOfText]
  cases Text.int64? (Text.trimChars s.toList) with
  | error e => exact iff_of_false nofun nofun
  | ok k => simp

/-- **The number of a key** is what the key denotes, if it has no more than 32 bits. -/
theorem number?_eq_ok_iff {k : ℕ} (hk : k < 2 ^ 32) : key.number? = .ok k ↔ key.Denotes k := by
  cases key with
  | id n => exact Except.ok.injEq n k ▸ Iff.rfl
  | text s => exact idOfText_eq_ok_iff.trans (and_iff_left (by omega))

end OpcodeKey

/-! ### Documents -/

/-- The entries of a document, in the order in which they are taken. -/
def OpcodeDocument.entries (doc : OpcodeDocument) : List (OpcodeKey × OpcodeMeta) :=
  doc.ids.map (fun e => (.id e.1, e.2)) ++ doc.texts.map fun e => (.text e.1, e.2)

namespace OpcodeMap

variable {map map' m : OpcodeMap} {e : OpcodeKey × OpcodeMeta}
  {es : List (OpcodeKey × OpcodeMeta)} {id : ℕ} {info : OpcodeMeta}

/-- Adds an entry of a document. -/
def addEntry (map : OpcodeMap) (e : OpcodeKey × OpcodeMeta) : Except Failure OpcodeMap := do
  map.addId (← e.1.number?) e.2

/-- **A document is loaded entry by entry.** -/
theorem ofDocument_eq (doc : OpcodeDocument) : ofDocument doc = doc.entries.foldlM addEntry {} := by
  rw [OpcodeDocument.entries, List.foldlM_append, List.foldlM_map]
  simp only [List.foldlM_map]
  rfl

theorem foldlM_addEntry_concat (es : List (OpcodeKey × OpcodeMeta)) (e : OpcodeKey × OpcodeMeta) :
    (es ++ [e]).foldlM addEntry {} = es.foldlM addEntry {} >>= fun map => map.addEntry e := by
  rw [List.foldlM_append]
  simp only [List.foldlM_cons, List.foldlM_nil, bind_pure]

theorem addId_eq_ok_iff {n : ℤ} : map.addId n info = .ok map' ↔
    ∃ id : ℕ, n = id ∧ id < 2 ^ 32 ∧ map.find? id = none ∧ map' = map.insert id info := by
  rw [addId, maxOpcodeId]
  split
  · refine iff_of_false nofun ?_
    rintro ⟨id, rfl, hid, -⟩
    omega
  · rename_i hrange
    obtain ⟨id, rfl⟩ := Int.eq_ofNat_of_zero_le (Int.not_lt.mp (not_or.mp hrange).1)
    rw [Int.toNat_natCast]
    cases hfind : map.find? id with
    | some found =>
        refine iff_of_false nofun ?_
        rintro ⟨id', hid, -, hnone, -⟩
        obtain rfl := Int.ofNat_inj.mp hid
        rw [hfind] at hnone
        cases hnone
    | none =>
        rw [Option.isSome_none, if_neg Bool.false_ne_true, Except.ok.injEq]
        constructor
        · rintro rfl
          exact ⟨id, rfl, by omega, hfind, rfl⟩
        · rintro ⟨id', hid, -, -, rfl⟩
          rw [Int.ofNat_inj.mp hid]

/-- **An entry is added** under the number that its key denotes, if this is free and has 32
bits. -/
theorem addEntry_eq_ok_iff : map.addEntry e = .ok map' ↔
    ∃ id : ℕ, id < 2 ^ 32 ∧ e.1.Denotes id ∧ map.find? id = none ∧ map' = map.insert id e.2 := by
  constructor
  · intro h
    cases hnumber : e.1.number? with
    | error failure =>
        rw [addEntry, hnumber] at h
        cases h
    | ok n =>
        rw [addEntry, hnumber] at h
        obtain ⟨id, rfl, hid, hnone, rfl⟩ := addId_eq_ok_iff.mp h
        exact ⟨id, hid, (OpcodeKey.number?_eq_ok_iff hid).mp hnumber, hnone, rfl⟩
  · rintro ⟨id, hid, hdenotes, hnone, rfl⟩
    rw [addEntry, (OpcodeKey.number?_eq_ok_iff hid).mpr hdenotes]
    exact addId_eq_ok_iff.mpr ⟨id, rfl, hid, hnone, rfl⟩

/-! ### One entry -/

/-- An entry **fits** after others if its key denotes a number of 32 bits that the other keys do
not denote. -/
def Fits (es : List (OpcodeKey × OpcodeMeta)) (e : OpcodeKey × OpcodeMeta) : Prop :=
  (∃ n : ℤ, e.1.Denotes n ∧ 0 ≤ n ∧ n < 2 ^ 32) ∧
    ∀ f ∈ es, ∀ n, ¬ (f.1.Denotes n ∧ e.1.Denotes n)

/-- A map has the metadata of some entries, one entry for each of them. -/
structure Loads (es : List (OpcodeKey × OpcodeMeta)) (map : OpcodeMap) : Prop where
  wellFormed : map.WellFormed
  length_eq : map.length = es.length
  find?_iff {id : ℕ} {info : OpcodeMeta} :
    map.find? id = some info ↔ ∃ e ∈ es, e.1.Denotes id ∧ e.2 = info

namespace Loads

theorem nil : Loads [] {} where
  wellFormed := wellFormed_empty
  length_eq := rfl
  find?_iff := by simp [find?]

/-- A number is free if no entry so far has it. -/
theorem find?_eq_none_iff (h : Loads es map) :
    map.find? id = none ↔ ∀ f ∈ es, ¬ f.1.Denotes id := by
  rw [Option.eq_none_iff_forall_ne_some]
  constructor
  · exact fun hnone f hf hdenotes => hnone f.2 (h.find?_iff.mpr ⟨f, hf, hdenotes, rfl⟩)
  · rintro hfree info hsome
    obtain ⟨f, hf, hdenotes, -⟩ := h.find?_iff.mp hsome
    exact hfree f hf hdenotes

/-- Which entries are added. -/
theorem exists_addEntry_iff (h : Loads es map) :
    (∃ map', map.addEntry e = .ok map') ↔ Fits es e := by
  simp only [addEntry_eq_ok_iff, h.find?_eq_none_iff]
  constructor
  · rintro ⟨_, id, hid, hdenotes, hfree, -⟩
    refine ⟨⟨id, hdenotes, by omega, by omega⟩, fun f hf n ⟨hfn, hen⟩ => ?_⟩
    exact hfree f hf (hdenotes.unique hen ▸ hfn)
  · rintro ⟨⟨n, hdenotes, hlow, hhigh⟩, hdistinct⟩
    obtain ⟨id, rfl⟩ := Int.eq_ofNat_of_zero_le hlow
    exact ⟨_, id, by omega, hdenotes, fun f hf hfn => hdistinct f hf id ⟨hfn, hdenotes⟩, rfl⟩

/-- **What one entry adds.** -/
theorem addEntry (h : Loads es map) (hadd : map.addEntry e = .ok map') :
    Loads (es ++ [e]) map' := by
  obtain ⟨id, hid, hdenotes, hnone, rfl⟩ := addEntry_eq_ok_iff.mp hadd
  refine ⟨h.wellFormed.insert hid e.2, ?_, fun {id' info} => ?_⟩
  · rw [length_insert hnone, h.length_eq, List.length_append, List.length_singleton]
  · rw [find?_insert]
    simp only [List.mem_append, List.mem_singleton, or_and_right, exists_or, exists_eq_left,
      ← h.find?_iff]
    split
    · rename_i heq
      subst heq
      simp [hnone, hdenotes]
    · rename_i hne
      have hother : ¬ e.1.Denotes id' := fun hid' => hne (Int.ofNat_inj.mp (hid'.unique hdenotes))
      simp [hother]

end Loads

/-! ### All entries -/

/-- The entries of which each fits after those before it: all keys denote numbers of 32 bits, and
no two of them the same. -/
structure Loadable (es : List (OpcodeKey × OpcodeMeta)) : Prop where
  numbered : ∀ e ∈ es, ∃ n : ℤ, e.1.Denotes n ∧ 0 ≤ n ∧ n < 2 ^ 32
  distinct : es.Pairwise fun e f => ∀ n, ¬ (e.1.Denotes n ∧ f.1.Denotes n)

theorem loadable_concat_iff : Loadable (es ++ [e]) ↔ Loadable es ∧ Fits es e := by
  constructor
  · rintro ⟨hnumbered, hdistinct⟩
    rw [List.forall_mem_append, List.forall_mem_singleton] at hnumbered
    obtain ⟨hbefore, -, hlast⟩ := List.pairwise_append.mp hdistinct
    exact ⟨⟨hnumbered.1, hbefore⟩, hnumbered.2,
      fun f hf => hlast f hf e (List.mem_singleton_self e)⟩
  · rintro ⟨⟨hnumbered, hdistinct⟩, hnumber, hfree⟩
    refine ⟨List.forall_mem_append.mpr ⟨hnumbered, List.forall_mem_singleton.mpr hnumber⟩,
      List.pairwise_append.mpr ⟨hdistinct, List.pairwise_singleton _ e, fun f hf g hg => ?_⟩⟩
    obtain rfl := List.mem_singleton.mp hg
    exact hfree f hf

/-- **What all entries add.** Induction on the entries from the last one back. -/
theorem loads_of_foldlM (h : es.foldlM addEntry {} = .ok map) : Loads es map := by
  induction es using List.reverseRecOn generalizing map with
  | nil =>
      obtain rfl := Except.ok.inj h
      exact .nil
  | append_singleton es e ih =>
      rw [foldlM_addEntry_concat] at h
      cases hbefore : es.foldlM addEntry {} with
      | error failure =>
          rw [hbefore] at h
          cases h
      | ok before =>
          rw [hbefore] at h
          exact (ih hbefore).addEntry h

/-- **Which entries are all added.** Induction on the entries from the last one back. -/
theorem exists_foldlM_addEntry_iff :
    (∃ map, es.foldlM addEntry {} = .ok map) ↔ Loadable es := by
  induction es using List.reverseRecOn with
  | nil => exact iff_of_true ⟨{}, rfl⟩ ⟨nofun, List.Pairwise.nil⟩
  | append_singleton es e ih =>
      rw [loadable_concat_iff, ← ih, foldlM_addEntry_concat]
      cases hbefore : es.foldlM addEntry {} with
      | error failure => exact iff_of_false nofun nofun
      | ok before =>
          rw [← (loads_of_foldlM hbefore).exists_addEntry_iff]
          exact (and_iff_right ⟨before, rfl⟩).symm

/-! ### Writing -/

theorem Loadable.perm {es' : List (OpcodeKey × OpcodeMeta)} (h : Loadable es)
    (hperm : es.Perm es') : Loadable es' where
  numbered e he := h.numbered e (hperm.mem_iff.mpr he)
  distinct := (hperm.pairwise_iff fun hdistinct n hn => hdistinct n hn.symm).mp h.distinct

/-- A map is written with the texts of its numbers as keys. -/
theorem entries_toDocument_perm (hm : m.WellFormed) :
    m.toDocument.entries.Perm (m.entries.map fun e => (.text (toString e.1), e.2)) := by
  have hkeys : ((m.entries.map fun e => (toString e.1, e.2)).map (·.1)).Nodup := by
    have htexts := hm.ordered.nodup.map fun _ _ => Nat.repr_injective
    rwa [List.map_map] at htexts ⊢
  have htexts := (Assoc.ofList_perm hkeys).map fun e => (OpcodeKey.text e.1, e.2)
  rw [List.map_map] at htexts
  exact htexts

/-- The keys of a written map denote its numbers. -/
theorem loadable_toDocument (hm : m.WellFormed) : Loadable m.toDocument.entries := by
  refine Loadable.perm ⟨List.forall_mem_map.mpr fun e he => ?_, List.pairwise_map.mpr ?_⟩
    (entries_toDocument_perm hm).symm
  · have hlt := hm.lt_two_pow e he
    exact ⟨e.1, OpcodeKey.denotes_toString_iff.mpr rfl, by omega, by omega⟩
  · refine hm.ordered.imp fun {e f} hlt n => ?_
    rw [OpcodeKey.denotes_toString_iff, OpcodeKey.denotes_toString_iff]
    omega

/-- **A written map is loaded again.** -/
theorem ofDocument_toDocument (hm : m.WellFormed) : ofDocument m.toDocument = .ok m := by
  obtain ⟨map, hmap⟩ := exists_foldlM_addEntry_iff.mpr (loadable_toDocument hm)
  have hloads := loads_of_foldlM hmap
  rw [ofDocument_eq, hmap, hloads.wellFormed.ext hm fun id => Option.ext fun info => ?_]
  rw [hloads.find?_iff, ← hm.mem_entries_iff]
  simp only [(entries_toDocument_perm hm).mem_iff, List.mem_map]
  constructor
  · rintro ⟨_, ⟨e, he, rfl⟩, hdenotes, rfl⟩
    rw [← Int.ofNat_inj.mp (OpcodeKey.denotes_toString_iff.mp hdenotes)]
    exact he
  · exact fun he => ⟨_, ⟨_, he, rfl⟩, OpcodeKey.denotes_toString_iff.mpr rfl, rfl⟩

/-! ### Loading and writing -/

/-- **Opcode documents are loaded exactly, and written maps are loaded again.** A document is
loaded just if every key denotes a number of 32 bits and no two keys denote the same one. The map
then has one entry for each key, with the metadata of the key under the number that it denotes. -/
theorem documents_load_exactly (doc : OpcodeDocument) (m : OpcodeMap) (hm : m.WellFormed) :
    ((∃ map, ofDocument doc = .ok map) ↔
      (∀ e ∈ doc.entries, ∃ n : ℤ, e.1.Denotes n ∧ 0 ≤ n ∧ n < 2 ^ 32) ∧
      doc.entries.Pairwise fun e f => ∀ n, ¬ (e.1.Denotes n ∧ f.1.Denotes n)) ∧
    (∀ map, ofDocument doc = .ok map →
      map.WellFormed ∧ map.length = doc.entries.length ∧
      ∀ (id : ℕ) info, map.find? id = some info ↔
        ∃ e ∈ doc.entries, e.1.Denotes id ∧ e.2 = info) ∧
    ofDocument m.toDocument = .ok m := by
  rw [ofDocument_eq doc, exists_foldlM_addEntry_iff]
  refine ⟨⟨fun h => ⟨h.numbered, h.distinct⟩, fun h => ⟨h.1, h.2⟩⟩, fun map hmap => ?_,
    ofDocument_toDocument hm⟩
  have hloads := loads_of_foldlM hmap
  exact ⟨hloads.wellFormed, hloads.length_eq, fun id info => hloads.find?_iff⟩

/-- A map of the least and the greatest number. -/
def bothBounds : OpcodeMap where
  entries := [(0, { name := "RETURN" }), (0xffffffff, { name := "ADD" })]

/-- A document with keys of both kinds. -/
def mixedKeys : OpcodeDocument where
  ids := [(7, { name := "RETURN" })]
  texts := [(" +08 ", { name := "ADD" }), ("-0", { name := "JUMP" })]

/-- A document with two keys for one number. -/
def sameNumber : OpcodeDocument where
  ids := [(7, { name := "RETURN" })]
  texts := [("+7", { name := "ADD" })]

theorem documents_load_exactly_mixedKeys :
    bothBounds.WellFormed ∧ ofDocument bothBounds.toDocument = .ok bothBounds ∧
      (∃ map, ofDocument mixedKeys = .ok map ∧ map.length = 3 ∧
        map.find? 8 = some { name := "ADD" } ∧ map.find? 0 = some { name := "JUMP" }) ∧
      ¬ ∃ map, ofDocument sameNumber = .ok map := by
  have hm : bothBounds.WellFormed := ⟨by decide, by decide⟩
  have hspaced : (OpcodeKey.text " +08 ").Denotes 8 := (OpcodeKey.idOfText_eq_ok_iff.mp rfl).1
  have hminus : (OpcodeKey.text "-0").Denotes 0 := (OpcodeKey.idOfText_eq_ok_iff.mp rfl).1
  have hplus : (OpcodeKey.text "+7").Denotes 7 := (OpcodeKey.idOfText_eq_ok_iff.mp rfl).1
  obtain ⟨-, hmixed, hround⟩ := documents_load_exactly mixedKeys bothBounds hm
  obtain ⟨hsame, -, -⟩ := documents_load_exactly sameNumber bothBounds hm
  obtain ⟨-, hlength, hfind⟩ := hmixed _ rfl
  refine ⟨hm, hround, ⟨_, rfl, hlength, (hfind 8 _).mpr ?_, (hfind 0 _).mpr ?_⟩, fun hload => ?_⟩
  · exact ⟨(.text " +08 ", _), .tail _ (.head _), hspaced, rfl⟩
  · exact ⟨(.text "-0", _), .tail _ (.tail _ (.head _)), hminus, rfl⟩
  · exact List.pairwise_pair.mp (hsame.mp hload).2 7 ⟨rfl, hplus⟩

end OpcodeMap

end TaggedBytecode
