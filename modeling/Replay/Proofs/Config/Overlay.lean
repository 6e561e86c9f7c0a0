/-
  Replay.Proofs.Config.Overlay — a configuration file is laid over the defaults.

  Each field of the two tables is what its key gives, or the default where the key is
  absent. This holds field by field, so a table that leaves keys out keeps the defaults of
  these and of no other, and a key that is removed puts back one default. The list of steps
  is one field: what is given replaces all of it. A step has no defaults.

  Keys that are no fields are passed over wherever a structure is read, and the order of the
  keys does not count. A strategy written as a table is different: its one key names the
  variant, and a second one is a mismatch (`strategy_takes_no_further_key`).

  Proved here: `readStep_table_iff`, `laid_iff_overlays`, `ofDocument_erase`,
  `ofDocument_replace`, `ofDocument_edited`, `document_overlays_defaults`.
-/

import Mathlib.Logic.Relation
import Replay.Proofs.Config.Fields

namespace Replay.Config

open Text Toml

/-! ## The structures and their fields -/

inductive StepField where
  | script
  | functions
  deriving DecidableEq

inductive TraceField where
  | traceFile
  | testFile
  | folder
  | stem
  | strategy
  deriving DecidableEq

inductive AddressField where
  | broadcasts
  | output
  | chain
  | token
  | tokenArgument
  | steps
  deriving DecidableEq

inductive TableField where
  | trace
  | addresses
  deriving DecidableEq

def StepField.Content : StepField → Type
  | script => Option Text
  | functions => Option (List Text)

def TraceField.Content : TraceField → Type
  | strategy => TestFile.Strategy
  | _ => Text

def AddressField.Content : AddressField → Type
  | chain | tokenArgument => Nat
  | steps => List DeployStep
  | _ => Text

def TableField.Content : TableField → Type
  | trace => TraceConfig
  | addresses => AddressConfig

def readSteps (v : Value) : Except Mismatch (List DeployStep) := do
  (← readItems v).mapM readStep

def tableNames : List Text := ["trace".toList, "addresses".toList]

def stepSchema : Schema StepDraft StepField.Content where
  names := [scriptName, functionsName]
  nodup := by decide
  key
    | .script => scriptName
    | .functions => functionsName
  key_mem f := by cases f <;> decide
  key_injective f g := by cases f <;> cases g <;> decide
  read
    | .script => fun v => some <$> readText v
    | .functions => fun v => some <$> (readItems v >>= fun vs => vs.mapM readText)
  get d
    | .script => d.script
    | .functions => d.functions
  make contents := ⟨contents .script, contents .functions⟩
  get_make contents := by funext f; cases f <;> rfl
  make_get _ := rfl

def traceSchema : Schema TraceConfig TraceField.Content where
  names := traceNames
  nodup := by decide
  key
    | .traceFile => "trace_file".toList
    | .testFile => "test_file".toList
    | .folder => "default_folder".toList
    | .stem => "fn_prefix".toList
    | .strategy => "strategy".toList
  key_mem f := by cases f <;> decide
  key_injective f g := by cases f <;> cases g <;> decide
  read
    | .traceFile | .testFile | .folder | .stem => readText
    | .strategy => readStrategy
  get c
    | .traceFile => c.traceFile
    | .testFile => c.testFile
    | .folder => c.folder
    | .stem => c.stem
    | .strategy => c.strategy
  make contents :=
    ⟨contents .traceFile, contents .testFile, contents .folder, contents .stem, contents .strategy⟩
  get_make contents := by funext f; cases f <;> rfl
  make_get _ := rfl

def addressSchema : Schema AddressConfig AddressField.Content where
  names := addressNames
  nodup := by decide
  key
    | .broadcasts => "broadcast_dir".toList
    | .output => "output".toList
    | .chain => "default_chain_id".toList
    | .token => "token_contract".toList
    | .tokenArgument => "token_name_arg".toList
    | .steps => "steps".toList
  key_mem f := by cases f <;> decide
  key_injective f g := by cases f <;> cases g <;> decide
  read
    | .broadcasts | .output | .token => readText
    | .chain => readNatural "u64".toList
    | .tokenArgument => readNatural "usize".toList
    | .steps => readSteps
  get c
    | .broadcasts => c.broadcasts
    | .output => c.output
    | .chain => c.chain
    | .token => c.token
    | .tokenArgument => c.tokenArgument
    | .steps => c.steps
  make contents := ⟨contents .broadcasts, contents .output, contents .chain, contents .token,
    contents .tokenArgument, contents .steps⟩
  get_make contents := by funext f; cases f <;> rfl
  make_get _ := rfl

def tableSchema : Schema Config TableField.Content where
  names := tableNames
  nodup := by decide
  key
    | .trace => "trace".toList
    | .addresses => "addresses".toList
  key_mem f := by cases f <;> decide
  key_injective f g := by cases f <;> cases g <;> decide
  read
    | .trace => readTrace
    | .addresses => readAddresses
  get c
    | .trace => c.trace
    | .addresses => c.addresses
  make contents := ⟨contents .trace, contents .addresses⟩
  get_make contents := by funext f; cases f <;> rfl
  make_get _ := rfl

theorem enters_step : stepSchema.Enters takeStep := by
  refine Schema.enters_of (fun base f v => ?_) fun base e h => ?_
  · cases f with
    | script => exact (Functor.map_map some (stepSchema.set base .script) (readText v)).symm
    | functions =>
      have hmap := Functor.map_map some (stepSchema.set base .functions) (readItems v >>= fun vs =>
        vs.mapM readText)
      exact (map_bind _ _ _).symm.trans hmap.symm
  · exact (if_neg (h .script)).trans (if_neg (h .functions))

theorem enters_trace : traceSchema.Enters takeTrace := by
  refine Schema.enters_of (fun base f v => ?_) fun base e h => ?_
  · cases f <;> rfl
  · exact (if_neg (h .traceFile)).trans <| (if_neg (h .testFile)).trans <| (if_neg (h .folder)).trans <|
      (if_neg (h .stem)).trans (if_neg (h .strategy))

theorem enters_address : addressSchema.Enters takeAddresses := by
  refine Schema.enters_of (fun base f v => ?_) fun base e h => ?_
  · cases f with
    | steps => exact (map_bind (addressSchema.set base .steps) (readItems v) fun vs => vs.mapM readStep).symm
    | _ => rfl
  · exact (if_neg (h .broadcasts)).trans <| (if_neg (h .output)).trans <| (if_neg (h .chain)).trans <|
      (if_neg (h .token)).trans <| (if_neg (h .tokenArgument)).trans (if_neg (h .steps))

theorem enters_table : tableSchema.Enters takeTable := by
  refine Schema.enters_of (fun base f v => ?_) fun base e h => ?_
  · cases f <;> rfl
  · exact (if_neg (h .trace)).trans (if_neg (h .addresses))

variable {es es' : Entries} {v w : Value} {c : Config}

/-! ## Steps -/

/-- A step is read if both of its fields are. -/
theorem readStep_eq_ok_iff {step : DeployStep} : readStep v = .ok step ↔
    stepSchema.readWith takeStep stepName {} v = .ok ⟨some step.script, some step.functions⟩ := by
  rw [readStep, Schema.readWith, bind_eq_ok_iff, bind_eq_ok_iff]
  refine exists_congr fun es => and_congr_right fun _ => ?_
  rw [bind_eq_ok_iff]
  constructor
  · rintro ⟨⟨script, functions⟩, hd, h⟩
    cases script <;> cases functions <;> cases h
    exact hd
  · intro h
    exact ⟨_, h, rfl⟩

theorem given_none_iff {α : Type} {read : Value → Except Mismatch α} {old : Option Value} {a : α} :
    given (fun v => some <$> read v) none old = .ok (some a) ↔ ∃ v, old = some v ∧ read v = .ok a := by
  cases old <;> simp [given]

/-- A step has no defaults: it is read exactly if both keys are given. -/
theorem readStep_table_iff {form : Form} {step : DeployStep} (hes : Document es) :
    readStep (.table form es) = .ok step ↔
      (∃ v, lookup scriptName es = some v ∧ readText v = .ok step.script) ∧
        ∃ v, lookup functionsName es = some v ∧
          (readItems v >>= fun vs => vs.mapM readText) = .ok step.functions := by
  rw [readStep_eq_ok_iff, ← given_none_iff, ← given_none_iff]
  refine (Schema.foldlM_eq_ok_iff enters_step hes.nodup).trans ⟨fun h => ⟨h .script, h .functions⟩, fun h f => ?_⟩
  cases f with
  | script => exact h.1
  | functions => exact h.2

/-! ## The defaults with a document laid over them -/

/-- Each field of both tables is the reading of its key, or the default where the key is absent; an absent table is an
    empty one. -/
structure Overlays (c : Config) (es : Entries) : Prop where
  trace : ∃ fs, given (readFields "Trace".toList traceNames) [] (lookup "trace".toList es) = .ok fs ∧
    traceSchema.Laid {} fs c.trace
  addresses : ∃ fs, given (readFields "Addresses".toList addressNames) [] (lookup "addresses".toList es) = .ok fs ∧
    addressSchema.Laid {} fs c.addresses

theorem ofDocument_eq_ok_iff (hes : Document es) : ofDocument es = .ok c ↔ tableSchema.Laid {} es c :=
  Schema.foldlM_eq_ok_iff enters_table hes.nodup

theorem laid_iff_overlays (hes : Document es) : tableSchema.Laid {} es c ↔ Overlays c es := by
  have htrace : given readTrace {} (lookup "trace".toList es) = .ok c.trace ↔
      ∃ fs, given (readFields "Trace".toList traceNames) [] (lookup "trace".toList es) = .ok fs ∧
        traceSchema.Laid {} fs c.trace :=
    Schema.given_eq_ok_iff enters_trace fun v hv => hes.lookup hv
  have haddresses : given readAddresses {} (lookup "addresses".toList es) = .ok c.addresses ↔
      ∃ fs, given (readFields "Addresses".toList addressNames) [] (lookup "addresses".toList es) = .ok fs ∧
        addressSchema.Laid {} fs c.addresses :=
    Schema.given_eq_ok_iff enters_address fun v hv => hes.lookup hv
  constructor
  · intro h
    exact ⟨htrace.1 (h .trace), haddresses.1 (h .addresses)⟩
  · intro h f
    cases f with
    | trace => exact htrace.2 h.trace
    | addresses => exact haddresses.2 h.addresses

/-! ## Edits that nobody notices -/

/-- No value of a field is a table of fields itself. -/
def Nowhere (_ : Text) (_ _ : Value) : Prop := False

def StepEdited : Value → Value → Prop := EditedIn stepSchema.names Nowhere

/-- One of the steps is edited. -/
inductive StepsEdited : Value → Value → Prop
  | item {front back : List Value} {v w : Value} : StepEdited v w →
      StepsEdited (.array (front ++ v :: back)) (.array (front ++ w :: back))
  | table {front back : List Entries} {es es' : Entries} : Edited stepSchema.names Nowhere es es' →
      StepsEdited (.tables (front ++ es :: back)) (.tables (front ++ es' :: back))

def InAddresses (key : Text) (v w : Value) : Prop := key = "steps".toList ∧ StepsEdited v w

def InTables (key : Text) (v w : Value) : Prop :=
  (key = "trace".toList ∧ EditedIn traceNames Nowhere v w) ∨
    (key = "addresses".toList ∧ EditedIn addressNames InAddresses v w)

/-- At any level, the keys of a table are put in another order, or keys that no structure has come to it, or values
    under such keys change. A strategy that is written as a table is none of these: its one key names the variant. -/
def DocumentEdited : Entries → Entries → Prop := Edited tableNames InTables

theorem blind_nowhere {σ Field : Type} {Content : Field → Type} (s : Schema σ Content) : s.Blind Nowhere :=
  ⟨nofun, nofun⟩

theorem StepEdited.readStep_iff (h : StepEdited v w) (hv : v.Keyed) {step : DeployStep} :
    readStep v = .ok step ↔ readStep w = .ok step := by
  rw [readStep_eq_ok_iff, readStep_eq_ok_iff]
  exact (blind_nowhere stepSchema).readWith_iff h hv enters_step

theorem mapM_replace {ε α β : Type} {f : α → Except ε β} {front back : List α} {x y : α} {zs : List β}
    (h : ∀ z, f x = .ok z ↔ f y = .ok z) :
    (front ++ x :: back).mapM f = .ok zs ↔ (front ++ y :: back).mapM f = .ok zs := by
  simp [List.mapM_append, List.mapM_cons, h]

theorem readSteps_array {vs : List Value} : readSteps (.array vs) = vs.mapM readStep := rfl

theorem readSteps_tables {ts : List Entries} : readSteps (.tables ts) = (ts.map (.table .header)).mapM readStep := rfl

theorem StepsEdited.readSteps_iff (h : StepsEdited v w) (hv : v.Keyed) {steps : List DeployStep} :
    readSteps v = .ok steps ↔ readSteps w = .ok steps := by
  cases h with
  | @item front back x y h =>
    rw [readSteps_array, readSteps_array]
    exact mapM_replace fun step => h.readStep_iff (keyed_array_iff.1 hv x (by simp))
  | @table front back es es' h =>
    have hes : (Value.table .header es).Keyed := keyed_table_iff.2 (keyed_tables_iff.1 hv es (by simp))
    simp only [readSteps_tables, List.map_append, List.map_cons]
    exact mapM_replace fun step => StepEdited.readStep_iff (.table h) hes

theorem StepsEdited.keyed (h : StepsEdited v w) (hv : v.Keyed) : w.Keyed := by
  have hin := (blind_nowhere stepSchema).keyed
  cases h with
  | @item front back x y h =>
    have hitems := keyed_array_iff.1 hv
    exact keyed_array_iff.2 (forall_mem_replace hitems (h.keyed (hitems x (by simp)) hin))
  | @table front back es es' h =>
    have htables := keyed_tables_iff.1 hv
    exact keyed_tables_iff.2 (forall_mem_replace htables (h.document (htables es (by simp)) hin))

theorem blind_addresses : addressSchema.Blind InAddresses := by
  refine ⟨fun key v w hv h => h.2.keyed hv, fun f v w hv h content => ?_⟩
  obtain rfl : f = .steps := addressSchema.key_injective h.1
  exact h.2.readSteps_iff hv

theorem blind_tables : tableSchema.Blind InTables := by
  refine ⟨fun key v w hv h => ?_, fun f v w hv h content => ?_⟩
  · rcases h with ⟨-, h⟩ | ⟨-, h⟩
    · exact h.keyed hv (blind_nowhere traceSchema).keyed
    · exact h.keyed hv blind_addresses.keyed
  · rcases h with ⟨hf, h⟩ | ⟨hf, h⟩
    · obtain rfl : f = .trace := tableSchema.key_injective hf
      exact (blind_nowhere traceSchema).readWith_iff h hv enters_trace
    · obtain rfl : f = .addresses := tableSchema.key_injective hf
      exact blind_addresses.readWith_iff h hv enters_address

theorem DocumentEdited.ofDocument_iff (h : DocumentEdited es es') (hes : Document es) :
    Document es' ∧ (ofDocument es = .ok c ↔ ofDocument es' = .ok c) := by
  have hes' := h.document hes blind_tables.keyed
  rw [ofDocument_eq_ok_iff hes, ofDocument_eq_ok_iff hes']
  exact ⟨hes', blind_tables.laid_iff h hes⟩

theorem ofDocument_edited (h : Relation.ReflTransGen DocumentEdited es es') (hes : Document es)
    (hc : ofDocument es = .ok c) : Document es' ∧ ofDocument es' = .ok c := by
  induction h with
  | refl => exact ⟨hes, hc⟩
  | tail _ hedit ih =>
    obtain ⟨hnext, hiff⟩ := hedit.ofDocument_iff (c := c) ih.1
    exact ⟨hnext, hiff.1 ih.2⟩

/-! ## Keys and tables removed -/

theorem ofDocument_erase (hes : Document es) (hc : ofDocument es = .ok c) (key : Text) :
    ofDocument (erase key es) = .ok (tableSchema.reset {} key c) :=
  (ofDocument_eq_ok_iff hes.erase).2 ((ofDocument_eq_ok_iff hes).1 hc).erase

variable {front back : Entries} {f : TableField}

theorem read_of_ofDocument (hes : Document (front ++ (tableSchema.key f, v) :: back))
    (hc : ofDocument (front ++ (tableSchema.key f, v) :: back) = .ok c) :
    tableSchema.read f v = .ok (tableSchema.get c f) := by
  have hlaid := (ofDocument_eq_ok_iff hes).1 hc f
  rwa [lookup_middle hes.nodup] at hlaid

/-- A table may be replaced by another one that is read, and the other table stays as it is. -/
theorem ofDocument_replace {content : f.Content} (hes : Document (front ++ (tableSchema.key f, v) :: back))
    (hc : ofDocument (front ++ (tableSchema.key f, v) :: back) = .ok c) (hw : w.Keyed)
    (hread : tableSchema.read f w = .ok content) :
    ofDocument (front ++ (tableSchema.key f, w) :: back) = .ok (tableSchema.set c f content) :=
  (ofDocument_eq_ok_iff (hes.replace hw)).2 (((ofDocument_eq_ok_iff hes).1 hc).replace hes.nodup hread)

variable {form : Form} {fs : Entries}

theorem ofDocument_erase_trace (hes : Document (front ++ ("trace".toList, .table form fs) :: back))
    (hc : ofDocument (front ++ ("trace".toList, .table form fs) :: back) = .ok c) (key : Text) :
    ofDocument (front ++ ("trace".toList, .table form (erase key fs)) :: back) =
      .ok { c with trace := traceSchema.reset {} key c.trace } := by
  have hfs : Document fs := keyed_table_iff.1 (hes.values ("trace".toList, .table form fs) (by simp))
  have hread : readTrace (.table form fs) = .ok c.trace := read_of_ofDocument (f := .trace) hes hc
  exact ofDocument_replace (f := .trace) hes hc (keyed_table_iff.2 hfs.erase)
    (Schema.readWith_erase enters_trace hfs hread key)

theorem ofDocument_erase_addresses (hes : Document (front ++ ("addresses".toList, .table form fs) :: back))
    (hc : ofDocument (front ++ ("addresses".toList, .table form fs) :: back) = .ok c) (key : Text) :
    ofDocument (front ++ ("addresses".toList, .table form (erase key fs)) :: back) =
      .ok { c with addresses := addressSchema.reset {} key c.addresses } := by
  have hfs : Document fs := keyed_table_iff.1 (hes.values ("addresses".toList, .table form fs) (by simp))
  have hread : readAddresses (.table form fs) = .ok c.addresses := read_of_ofDocument (f := .addresses) hes hc
  exact ofDocument_replace (f := .addresses) hes hc (keyed_table_iff.2 hfs.erase)
    (Schema.readWith_erase enters_address hfs hread key)

/-- What is read from a text has no key twice. A step in it is decoded if both of its keys give what they should. The
    whole is decoded to the settings that lay it over the defaults, and to no others. Then removing a table gives the
    defaults of that table, removing a key of a table gives the default of that field, and edits that nobody notices,
    however many, change nothing. -/
theorem document_overlays_defaults :
    (∀ s es, Toml.parse s = some es → Document es) ∧
      (∀ form es step, Document es → (readStep (.table form es) = .ok step ↔
        (∃ v, lookup scriptName es = some v ∧ readText v = .ok step.script) ∧
          ∃ v, lookup functionsName es = some v ∧
            (readItems v >>= fun vs => vs.mapM readText) = .ok step.functions)) ∧
      ∀ es, Document es →
        (∀ c, ofDocument es = .ok c ↔ Overlays c es) ∧
          ∀ c, ofDocument es = .ok c →
            ofDocument (erase "trace".toList es) = .ok { c with trace := {} } ∧
              ofDocument (erase "addresses".toList es) = .ok { c with addresses := {} } ∧
              (∀ front back form fs key, es = front ++ ("trace".toList, .table form fs) :: back →
                ofDocument (front ++ ("trace".toList, .table form (erase key fs)) :: back) =
                  .ok { c with trace := traceSchema.reset {} key c.trace }) ∧
              (∀ front back form fs key, es = front ++ ("addresses".toList, .table form fs) :: back →
                ofDocument (front ++ ("addresses".toList, .table form (erase key fs)) :: back) =
                  .ok { c with addresses := addressSchema.reset {} key c.addresses }) ∧
              ∀ es', Relation.ReflTransGen DocumentEdited es es' → Document es' ∧ ofDocument es' = .ok c := by
  refine ⟨fun s es => document_of_parse, fun form es step => readStep_table_iff, fun es hes => ⟨fun c => ?_, ?_⟩⟩
  · rw [ofDocument_eq_ok_iff hes, laid_iff_overlays hes]
  · intro c hc
    refine ⟨ofDocument_erase hes hc _, ofDocument_erase hes hc _, ?_, ?_, fun es' h => ofDocument_edited h hes hc⟩
    · rintro front back form fs key rfl
      exact ofDocument_erase_trace hes hc key
    · rintro front back form fs key rfl
      exact ofDocument_erase_addresses hes hc key

theorem document_overlays_defaults_of_partial :
    let trace := [("fn_prefix".toList, .string "t".toList), ("extra".toList, .array [])]
    let es := [("addresses".toList, .table .header [("output".toList, .string "o".toList)]),
      ("trace".toList, .table .header trace)]
    let c : Config := { trace := { stem := "t".toList }, addresses := { output := "o".toList } }
    Toml.parse "[addresses]\noutput='o'\n[trace]\nfn_prefix='t'\nextra=[]\n".toList = some es ∧ ofDocument es = .ok c ∧
      ofDocument (erase "trace".toList es) = .ok { c with trace := {} } ∧
      ofDocument [("addresses".toList, .table .header [("output".toList, .string "o".toList)]),
        ("trace".toList, .table .header (erase "fn_prefix".toList trace))] = .ok { c with trace := {} } ∧
      ofDocument es.reverse = .ok c := by
  intro trace es c
  have hparse : Toml.parse "[addresses]\noutput='o'\n[trace]\nfn_prefix='t'\nextra=[]\n".toList = some es := rfl
  have hc : ofDocument es = .ok c := rfl
  have hes := document_overlays_defaults.1 _ es hparse
  obtain ⟨htable, -, hkey, -, hedits⟩ := (document_overlays_defaults.2.2 es hes).2 c hc
  have hswap : DocumentEdited es es.reverse := .permuted (List.reverse_perm es).symm
  exact ⟨hparse, hc, htable, hkey [_] [] .header trace _ rfl, (hedits _ (.single hswap)).2⟩

/-- A key beside the variant of a strategy is not passed over. -/
theorem strategy_takes_no_further_key :
    parse "[trace]\nstrategy = \x7b structural = \x7b\x7d \x7d\n".toList =
        .ok { trace := { strategy := .structural } } ∧
      parse "[trace]\nstrategy = \x7b structural = \x7b\x7d, extra = 1 \x7d\n".toList =
        .error (.mismatch (.variantCount true)) := ⟨rfl, rfl⟩

end Replay.Config
