import Mathlib
import TaggedBytecode.Proofs.Container.RoundTrip
import TaggedBytecode.Proofs.Program.Dump
import TaggedBytecode.Proofs.Program.Loading

/-!
# The Environment of a Loaded Program

A program is loaded from its dump as a bare program, and from its container with the markers and
the flags that the container fixes. A container only has the markers if they differ from the
reference markers, and its flags can only switch the string pool on. So a configuration that packs
a program adopts the container as what it was, and so does any that differs from it at most in
having the reference markers and no string pool.

## Main definitions

* `PreparedProgram.under` — a program prepared under the configuration that it runs under.

## Main results

* `LoadedProgram.ofBytes_dump`, `LoadedProgram.ofBytes_container` — what is loaded.
* `Config.exists_encode_pack_iff` — which containers are written.
* `Config.adopt_pack` — a container makes up for what a configuration lacks.
* `PreparedProgram.under_eq_error_iff` — what can go wrong.
-/

namespace TaggedBytecode

/-! ### Loading dumps and containers -/

namespace LoadedProgram

variable {config : Config}

/-- **A program is loaded from its dump**, whatever the configuration. -/
theorem ofBytes_dump {dump : ProgramDump} (h : ∀ s ∈ dump.stats, s.Fits) :
    ofBytes config (Bytes.ofText dump.toJson.indented) =
      .ok { program := dump.program, warnings := dump.warnings } := by
  obtain ⟨inner, hchars⟩ : ∃ inner, dump.toJson.indented.toList = '\x7b' :: inner ++ ['\x7d'] := by
    rw [Json.indented, String.toList_ofList]
    exact Json.exists_indentedChars_object 0 _
  have hmagic : ¬ "TGVB".toList <+: dump.toJson.indented.toList := by
    rw [hchars]
    rintro ⟨rest, hrest⟩
    exact absurd (List.cons.inj hrest).1 (by decide)
  have htrim : Text.trim dump.toJson.indented = dump.toJson.indented := by
    refine Text.trim_eq_self ?_ ?_
    · rw [hchars]
      rintro c ⟨⟩
      decide
    · rw [hchars, List.getLast?_append_of_ne_nil _ (List.cons_ne_nil _ _)]
      rintro c ⟨⟩
      decide
  have hbrace : (dump.toJson.indented.toList.head? == some '\x7b') = true := by
    rw [hchars]
    rfl
  rw [ofBytes, if_neg (mt take_eq_magic_iff.mp hmagic), Bytes.text?_ofText]
  simp only [ofText, htrim, if_pos hbrace, ProgramDump.ofText_indented h]
  rfl

/-- **A program is loaded from its container**, with all that it fixes. -/
theorem ofBytes_container {c : Container} {bytes : List UInt8} (hc : c.WellFormed)
    (h : c.encode = .ok bytes) :
    ofBytes config bytes =
      .ok { program := c.program, markers := c.markers, flags := c.flags } := by
  have hmagic : bytes.take 4 = containerMagic := by
    obtain ⟨-, rfl⟩ := Container.encode_eq_ok_iff.mp h
    rfl
  rw [ofBytes, if_pos hmagic, Container.decode_of_encode hc h]
  rfl

end LoadedProgram

/-! ### The environment of a program -/

namespace Config

variable {config : Config}

theorem validate_eq_ok_iff :
    config.validate = .ok () ↔
      config.markers.validate = .ok () ∧ ∃ alphabet, config.alphabet = .ok alphabet := by
  cases hmarkers : config.markers.validate <;> cases halphabet : config.alphabet <;>
    simp [validate, hmarkers, halphabet, bind, Except.bind, pure, Except.pure]

theorem markers_pack (program : Program) (source : String) :
    (config.pack program source).markers =
      if config.markers = {} then none else some config.markers := rfl

theorem contains_flags_pack (program : Program) (source : String) :
    (config.pack program source).flags.contains .pooled = config.stringPool := by
  cases h : config.stringPool <;> simp only [pack, h] <;> rfl

/-- What a valid configuration packs is well-formed. -/
theorem wellFormed_pack (hvalid : config.validate = .ok ()) (program : Program) (source : String) :
    (config.pack program source).WellFormed := by
  refine ⟨Nat.le_refl _, fun t ht => ?_, ?_⟩
  · rw [markers_pack, Option.mem_def] at ht
    split at ht
    · cases ht
    · obtain rfl := Option.some.inj ht
      exact (validate_eq_ok_iff.mp hvalid).1
  · rintro p ⟨⟩
    exact List.Pairwise.nil

/-- **Which containers of programs are written.** -/
theorem exists_encode_pack_iff {program : Program} {source : String} :
    (∃ bytes, (config.pack program source).encode = .ok bytes) ↔
      program.size < 2 ^ 30 - 1 ∧
        (Payload.ofProvenance { source := some source }).length < wordBound := by
  constructor
  · rintro ⟨bytes, h⟩
    obtain ⟨hfits, -⟩ := Container.encode_eq_ok_iff.mp h
    have hsize := Container.size_lt_of_fits hfits
    exact ⟨hsize, (Container.fits_sections hsize).mp hfits _ rfl⟩
  · rintro ⟨hsize, hsource⟩
    refine ⟨_, Container.encode_eq_ok_iff.mpr ⟨(Container.fits_sections hsize).mpr ?_, rfl⟩⟩
    rintro p ⟨⟩
    exact hsource

/-- A bare program fixes nothing. -/
theorem adopt_bare (config : Config) (program : Program) (warnings : List String) :
    config.adopt { program, warnings } = config := by
  have hunset : (config.stringPool || ContainerFlags.contains {} .pooled) = config.stringPool :=
    Bool.or_false _
  rw [adopt, hunset, Option.getD_none]

/-- **A container makes up for what a configuration lacks.** It may lack the markers, the string
pool, or both. -/
theorem adopt_pack (config : Config) (program : Program) (source : String) {markers : Markers}
    {stringPool : Bool} (hmarkers : markers ∈ [config.markers, {}])
    (hpool : stringPool ∈ [config.stringPool, false]) :
    { config with markers, stringPool }.adopt
        { program, markers := (config.pack program source).markers,
          flags := (config.pack program source).flags } = config := by
  have hkept : (config.pack program source).markers.getD markers = config.markers := by
    rw [markers_pack]
    split
    · rename_i hreference
      rw [Option.getD_none, hreference]
      rcases List.mem_pair.mp hmarkers with h | h
      · exact h.trans hreference
      · exact h
    · rfl
  have hset : (stringPool || config.stringPool) = config.stringPool := by
    rcases List.mem_pair.mp hpool with rfl | rfl
    · exact Bool.or_self _
    · exact Bool.false_or _
  rw [adopt, hkept, contains_flags_pack, hset]

end Config

namespace PreparedProgram

variable {config : Config} {program : Program} {loaded : LoadedProgram}

/-- A program prepared under the configuration that it runs under. -/
def under (config : Config) (program : Program) : Except Fault PreparedProgram :=
  (config.prepare program).map fun (program, decoder) => { program, decoder, config }

/-- Preparing can only fail where the string pool is cut out. -/
theorem under_eq_error_iff {fault : Fault} :
    under config program = .error fault ↔
      config.stringPool = true ∧
        StringPool.extract program config.markers config.chars = .error fault := by
  rw [under, Config.prepare]
  split
  · rename_i hpool
    cases StringPool.extract program config.markers config.chars <;> simp [Except.map, hpool]
  · rename_i hpool
    simp [Except.map, hpool]

/-- A loaded program is prepared under the configuration that it is adopted by. -/
theorem ofLoaded_eq {name : String} (hvalid : (config.adopt loaded).validate = .ok ()) :
    ofLoaded config name loaded =
      noting ("Failed to prepare " ++ name)
        (faulting (under (config.adopt loaded) loaded.program)) := by
  rw [ofLoaded, hvalid, under]
  cases (config.adopt loaded).prepare loaded.program <;> rfl

end PreparedProgram

end TaggedBytecode
