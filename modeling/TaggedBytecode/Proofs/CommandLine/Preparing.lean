import Mathlib
import TaggedBytecode.CommandLine.Perform
import TaggedBytecode.Proofs.CommandLine.Session
import TaggedBytecode.Proofs.Program.Environment

/-!
# Containers Pin Configurations

A stream is decoded to a container or to a dump. Whatever the configuration, both are prepared to
the same program with the same decoder under the same configuration, or fail with the same fault of
the string pool. The dump needs the configuration for that. The container also gets there from the
reference markers and without being told of the string pool, since it says what differs.

Nothing is said of what else the configuration holds: the character mode, the alphabet and the
limits of runs are in no container.

## Main definitions

* `Command.decoded` — what is written for a program that was decoded.
* `PreparedProgram.outcome` — what preparing a program comes to in a command.

## Main results

* `Command.of_run_performDecode` — what the decode command leaves behind.
* `Session.run_prepare` — what preparing a file comes to.
* `Command.container_pins_configuration` — containers and dumps are prepared alike.
-/

namespace TaggedBytecode

open TerminalM

/-! ### Decoding -/

namespace Command

open Session

variable {config : Config} {session later : Session} {source output : String}

/-- What is written for a program that was decoded from a stream: a container or a dump. -/
def decoded (config : Config) (source : String) (container : Bool) (program : Program) :
    Except Failure (List UInt8) :=
  if container then (config.pack program source).encode
  else .ok (Bytes.ofText (ProgramDump.of program).toJson.indented)

theorem decoded_container (program : Program) :
    decoded config source true program = (config.pack program source).encode :=
  if_pos rfl

theorem decoded_dump (program : Program) :
    decoded config source false program =
      .ok (Bytes.ofText (ProgramDump.of program).toJson.indented) :=
  if_neg Bool.false_ne_true

/-- **What the decode command leaves behind.** -/
theorem of_run_performDecode {container : Bool}
    (hrun : session.run (performDecode config source (some output) container) = (.ok (), later)) :
    ∃ stream text program bytes, session.readFile source = .ok stream ∧
      Bytes.text? stream = some text ∧ decodeStream config text = .ok program ∧
      decoded config source container program = .ok bytes ∧ later.readFile output = .ok bytes := by
  obtain ⟨text, between, hread, hdecoding⟩ := run_bind_eq_ok_iff.mp hrun
  obtain ⟨rfl, stream, hstream, htext⟩ := run_readText_eq_ok_iff.mp hread
  obtain ⟨program, between, hdecode, hwriting⟩ := run_bind_eq_ok_iff.mp hdecoding
  rw [run_ofExcept] at hdecode
  obtain ⟨hprogram, rfl⟩ := Prod.mk.inj hdecode
  refine ⟨stream, text, program, ?_⟩
  cases container with
  | true =>
      obtain ⟨bytes, between, hencode, hwriting⟩ := run_bind_eq_ok_iff.mp hwriting
      rw [run_ofExcept] at hencode
      obtain ⟨hbytes, rfl⟩ := Prod.mk.inj hencode
      obtain ⟨_, between, hwrite, hreport⟩ := run_bind_eq_ok_iff.mp hwriting
      have hfile := readFile_of_run_writeBytes hwrite
      obtain ⟨-, rfl⟩ := Prod.mk.inj (hreport.symm.trans (run_report _))
      exact ⟨bytes, hstream, htext, mapError_eq_ok_iff.mp hprogram, mapError_eq_ok_iff.mp hbytes,
        hfile⟩
  | false =>
      obtain ⟨_, between, hwrite, hreport⟩ := run_bind_eq_ok_iff.mp hwriting
      have hfile := readFile_of_run_writeBytes hwrite
      obtain ⟨-, rfl⟩ := Prod.mk.inj (hreport.symm.trans (run_report _))
      exact ⟨_, hstream, htext, mapError_eq_ok_iff.mp hprogram, rfl, hfile⟩

/-- What is enough for the decode command to leave what it has to. -/
theorem run_performDecode {container : Bool} {stream bytes : List UInt8} {text : String}
    {program : Program} (hstream : session.readFile source = .ok stream)
    (htext : Bytes.text? stream = some text) (hprogram : decodeStream config text = .ok program)
    (hbytes : decoded config source container program = .ok bytes)
    (hwrite : session.run (writeBytes output bytes) = (.ok (), later)) :
    ∃ note, session.run (performDecode config source (some output) container) =
      (.ok (), { later with reported := later.reported ++ note }) := by
  have hread : session.run (readText ("Failed to read encoded stream " ++ source) source) =
      (.ok text, session) := run_readText_eq_ok_iff.mpr ⟨rfl, stream, hstream, htext⟩
  cases container with
  | true =>
      rw [decoded_container] at hbytes
      refine ⟨"Emitted module to " ++ output ++ " (" ++ toString bytes.length ++ " bytes)\n", ?_⟩
      simp only [performDecode, run_bind, hread, run_ofExcept, hprogram, Except.mapError, hbytes,
        hwrite]
      exact run_report _
  | false =>
      rw [decoded_dump] at hbytes
      obtain rfl := Except.ok.inj hbytes
      refine ⟨"Wrote " ++ output ++ "\n", ?_⟩
      simp only [performDecode, run_bind, hread, run_ofExcept, hprogram, Except.mapError,
        writeText, hwrite]
      exact run_report _

end Command

/-! ### Preparing -/

/-- What preparing the program of a file comes to in a command, if it has to run under a
configuration. -/
def PreparedProgram.outcome (config : Config) (program : Program) (path : String) :
    Except Breakdown PreparedProgram :=
  (noting ("Failed to prepare " ++ path) (faulting (under config program))).mapError .failure

/-- **What preparing a file comes to**, if a program is loaded from it. -/
theorem Session.run_prepare {config effective : Config} {session : Session} {path : String}
    {bytes : List UInt8} {loaded : LoadedProgram} (hread : session.readFile path = .ok bytes)
    (hloaded : LoadedProgram.ofBytes config bytes = .ok loaded)
    (hadopt : config.adopt loaded = effective) (hvalid : effective.validate = .ok ()) :
    session.run (prepare config path) =
      (PreparedProgram.outcome effective loaded.program path, session) := by
  subst hadopt
  have hfile : session.run (file ("Failed to read program " ++ path) (·.readFile path)) =
      (.ok bytes, session) := run_file_eq_ok_iff.mpr (Prod.ext hread rfl)
  have hload : session.run (load config path) = (.ok loaded, session) := by
    simp only [load, run_bind, hfile, run_ofExcept, hloaded]
    rfl
  simp only [prepare, run_bind, hload, run_ofExcept, PreparedProgram.ofLoaded_eq hvalid]
  rfl

namespace Command

variable {config : Config} {session : Session} {source path : String} {program : Program}
  {bytes : List UInt8}

/-- **A container is prepared under the configuration that it was made under**, also if the
markers or the string pool are missing where it is prepared. -/
theorem run_prepare_container (hvalid : config.validate = .ok ())
    (hbytes : decoded config source true program = .ok bytes)
    (hread : session.readFile path = .ok bytes) {markers : Markers} {stringPool : Bool}
    (hmarkers : markers ∈ [config.markers, {}]) (hpool : stringPool ∈ [config.stringPool, false]) :
    session.run (prepare { config with markers, stringPool } path) =
      (PreparedProgram.outcome config program path, session) := by
  rw [decoded_container] at hbytes
  have hloaded : LoadedProgram.ofBytes { config with markers, stringPool } bytes =
      .ok { program, markers := (config.pack program source).markers,
            flags := (config.pack program source).flags } :=
    LoadedProgram.ofBytes_container (Config.wellFormed_pack hvalid program source) hbytes
  have hadopt := config.adopt_pack program source hmarkers hpool
  exact (Session.run_prepare hread hloaded hadopt hvalid :)

/-- **A dump is prepared under the configuration of the command.** -/
theorem run_prepare_dump (hvalid : config.validate = .ok ()) (hsize : program.size < 2 ^ 64)
    (hbytes : decoded config source false program = .ok bytes)
    (hread : session.readFile path = .ok bytes) :
    session.run (prepare config path) =
      (PreparedProgram.outcome config program path, session) := by
  rw [decoded_dump] at hbytes
  obtain rfl := Except.ok.inj hbytes
  have hfits : ∀ s ∈ (ProgramDump.of program).stats, s.Fits := by
    intro s hs
    obtain rfl := Option.some.inj hs
    exact ProgramStats.fits_of hsize
  have hloaded : LoadedProgram.ofBytes config
      (Bytes.ofText (ProgramDump.of program).toJson.indented) =
        .ok { program, warnings := (ProgramDump.of program).warnings } :=
    LoadedProgram.ofBytes_dump hfits
  exact (Session.run_prepare hread hloaded (config.adopt_bare program _) hvalid :)

/-- **Containers pin the configuration that they were made under.** The decode command leaves a
container or a dump of the program that its stream spells. A container is written just if the slots
and the path of the stream fit. In every session that has both, preparing either under a valid
configuration comes to the same: the program, its decoder and that configuration, or the fault of
cutting out the string pool. Preparing the container comes to that also under the configuration
with the reference markers, without the string pool, or with both changes. -/
theorem container_pins_configuration (hvalid : config.validate = .ok ()) (source : String) :
    (∀ (session later : Session) (output : String) (container : Bool),
      session.run (performDecode config source (some output) container) = (.ok (), later) →
        ∃ stream text program bytes, session.readFile source = .ok stream ∧
          Bytes.text? stream = some text ∧ decodeStream config text = .ok program ∧
          decoded config source container program = .ok bytes ∧
          later.readFile output = .ok bytes) ∧
    ∀ program : Program,
      ((∃ bytes, decoded config source true program = .ok bytes) ↔
        program.size < 2 ^ 30 - 1 ∧
          (Payload.ofProvenance { source := some source }).length < wordBound) ∧
      (∀ fault, PreparedProgram.under config program = .error fault ↔
        config.stringPool = true ∧
          StringPool.extract program config.markers config.chars = .error fault) ∧
      ∀ (session : Session) (container dump : String) (packed listed : List UInt8),
        decoded config source true program = .ok packed →
        decoded config source false program = .ok listed →
        session.readFile container = .ok packed → session.readFile dump = .ok listed →
        session.run (prepare config container) =
          (PreparedProgram.outcome config program container, session) ∧
        session.run (prepare config dump) =
          (PreparedProgram.outcome config program dump, session) ∧
        ∀ markers ∈ [config.markers, {}], ∀ stringPool ∈ [config.stringPool, false],
          session.run (prepare { config with markers, stringPool } container) =
            (PreparedProgram.outcome config program container, session) := by
  refine ⟨fun _ _ _ _ => of_run_performDecode, fun program => ?_⟩
  have hwritten : (∃ bytes, decoded config source true program = .ok bytes) ↔
      program.size < 2 ^ 30 - 1 ∧
        (Payload.ofProvenance { source := some source }).length < wordBound := by
    rw [decoded_container]
    exact Config.exists_encode_pack_iff
  refine ⟨hwritten, fun _ => PreparedProgram.under_eq_error_iff, ?_⟩
  intro session container dump packed listed hpacked hlisted hcontainer hdump
  have hsize : program.size < 2 ^ 64 :=
    Nat.lt_trans (hwritten.mp ⟨packed, hpacked⟩).1 (by decide)
  have hcontainers := @run_prepare_container config session source container program packed hvalid
    hpacked hcontainer
  exact ⟨hcontainers List.mem_cons_self List.mem_cons_self,
    run_prepare_dump hvalid hsize hlisted hdump, fun _ hm _ hp => hcontainers hm hp⟩

/-- A configuration with markers of its own and a string pool. -/
def greetingConfig : Config where
  markers := { stringTag := 4, undefinedTag := some 50 }
  chars := .identity
  stringPool := true

/-- A program whose pool is spelled with the markers of the configuration. -/
def greeting : Program := #[37, 4, 2, 72, 105, 11]

/-- A session with the stream of the program and other files. -/
def greetingSession (others : List (String × Disk)) (reported : String) : Session where
  disk := .directory (("greeting.txt", .file (Bytes.ofText "afМPhBМR")) :: others)
  reported

/-- The stream of the program is decoded to a file. -/
theorem run_performDecode_greeting {container : Bool} {output reported : String}
    {others files : List (String × Disk)} {bytes : List UInt8}
    (hbytes : decoded greetingConfig "greeting.txt" container greeting = .ok bytes)
    (hparent : Path.parent output = "")
    (hwrite : (greetingSession others reported).writeFile output bytes =
      .ok (greetingSession files reported)) :
    ∃ note, (greetingSession others reported).run
      (performDecode greetingConfig "greeting.txt" (some output) container) =
        (.ok (), greetingSession files (reported ++ note)) := by
  have halphabet : greetingConfig.alphabet = .ok Alphabet.reference := Alphabet.alphabet_reference
  have htrim : Text.trim "afМPhBМR" = "afМPhBМR" := by decide +kernel
  have hdecode : Alphabet.reference.decode "afМPhBМR" = .ok greeting.toList := by cbv
  have hprogram : decodeStream greetingConfig "afМPhBМR" = .ok greeting := by
    rw [decodeStream, htrim]
    simp only [halphabet, hdecode, bind, Except.bind, faulting, pure, Except.pure, Except.mapError]
  exact run_performDecode rfl (Bytes.text?_ofText _) hprogram hbytes
    (Session.run_writeBytes hparent hwrite)

/-- A container and a dump are decoded from the stream of the program, one after the other. Then the
container is prepared with the reference markers and without a string pool. -/
theorem container_pins_configuration_greeting :
    greetingConfig.validate = .ok () ∧
    ∃ prepared between later, prepared.program = #[37, 11] ∧
      prepared.decoder.pool.map StringPool.length = some 2 ∧ prepared.config = greetingConfig ∧
      (greetingSession [] "").run
        (performDecode greetingConfig "greeting.txt" (some "greeting.tgvb") true) =
          (.ok (), between) ∧
      between.run (performDecode greetingConfig "greeting.txt" (some "greeting.json") false) =
        (.ok (), later) ∧
      later.run (prepare greetingConfig "greeting.tgvb") = (.ok prepared, later) ∧
      later.run (prepare greetingConfig "greeting.json") = (.ok prepared, later) ∧
      later.run (prepare { chars := .identity } "greeting.tgvb") = (.ok prepared, later) := by
  have hvalid : greetingConfig.validate = .ok () :=
    Config.validate_eq_ok_iff.mpr ⟨rfl, _, Alphabet.alphabet_reference⟩
  obtain ⟨-, hpins⟩ := container_pins_configuration hvalid "greeting.txt"
  obtain ⟨hwritten, -, hprepares⟩ := hpins greeting
  have hsource : (Payload.ofProvenance { source := some "greeting.txt" }).length < wordBound := by
    refine Nat.lt_of_le_of_lt (Bytes.length_ofText_le _) ?_
    rw [Json.compact, String.toList_ofList]
    decide
  obtain ⟨packed, hpacked⟩ := hwritten.mpr ⟨by decide, hsource⟩
  obtain ⟨listed, hlisted⟩ : ∃ listed, decoded greetingConfig "greeting.txt" false greeting =
    .ok listed := ⟨_, decoded_dump greeting⟩
  have hparents : Path.parent "greeting.tgvb" = "" ∧ Path.parent "greeting.json" = "" := by
    decide +kernel
  have hone : ∀ reported, (greetingSession [] reported).writeFile "greeting.tgvb" packed =
      .ok (greetingSession [("greeting.tgvb", .file packed)] reported) := fun _ => rfl
  have htwo : ∀ reported, (greetingSession [("greeting.tgvb", .file packed)] reported).writeFile
      "greeting.json" listed =
        .ok (greetingSession [("greeting.tgvb", .file packed), ("greeting.json", .file listed)]
          reported) := fun _ => rfl
  obtain ⟨first, hcontainer⟩ := run_performDecode_greeting hpacked hparents.1 (hone "")
  obtain ⟨second, hdump⟩ := run_performDecode_greeting hlisted hparents.2 (htwo ("" ++ first))
  obtain ⟨pool, hlength, hunder⟩ : ∃ pool : StringPool, pool.length = 2 ∧
      PreparedProgram.under greetingConfig greeting =
        .ok ⟨#[37, 11], { greetingConfig.decoder with pool := some pool }, greetingConfig⟩ :=
    ⟨_, rfl, rfl⟩
  generalize hlater : greetingSession _ ("" ++ first ++ second) = later at hdump
  have hprepared := hprepares later "greeting.tgvb" "greeting.json" packed listed hpacked hlisted
    (hlater ▸ rfl) (hlater ▸ rfl)
  simp only [PreparedProgram.outcome, hunder] at hprepared
  obtain ⟨hpinned, hdumped, hlesser⟩ := hprepared
  refine ⟨hvalid, ⟨#[37, 11], { greetingConfig.decoder with pool := some pool }, greetingConfig⟩,
    _, _, rfl, congrArg some hlength, rfl, hcontainer, hdump, hpinned, hdumped,
    hlesser {} (by decide) false (by decide)⟩

end Command

end TaggedBytecode
