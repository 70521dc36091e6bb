import Rebalance.Proofs.Settings.Layers
import Rebalance.Proofs.Settings.Storing

/-!
# The environment over files

What the environment says is stored into the settings of the defaults and a file. The defaults have
a table for each section that the environment writes to, so this fails exactly if the file has
something other than a table in the place of one of them; otherwise the environment prevails, and
all other keys have what the file and the defaults give them.
-/

namespace Rebalance

namespace Table

variable {b t s : Table} {k k' : String}

/-- What stands under a key, if anything, is a table. -/
def LeavesRoom (t : Table) (k : String) : Prop := ∀ v, Roster.entry? t k = some v → v.IsTable

theorem obstructed_pair : t.Obstructed [k, k'] ↔ ¬ t.LeavesRoom k := by
  rw [obstructed_cons, LeavesRoom]
  push Not
  refine exists_congr fun v ↦ and_congr_right fun _ ↦ ⟨?_, fun h ↦ ?_⟩
  · rintro h hv
    obtain ⟨t, rfl⟩ := Value.isTable_iff.1 hv
    obtain ⟨w, -, hw⟩ := obstructed_cons.1 h
    exact not_obstructedFrom_nil hw
  · exact obstructedFrom_cons_of_not_isTable h k' []

/-- A layer leaves room below a key of which there is a table underneath, if it has room itself. -/
theorem leavesRoom_merge (ht : t.keys.Nodup) (hb : Roster.entry? b k = some (.table s)) :
    (merge b t).LeavesRoom k ↔ t.LeavesRoom k := by
  rw [LeavesRoom, LeavesRoom, entry?_merge ht, hb]
  cases Roster.entry? t k with
  | none => simp
  | some v =>
    by_cases hv : v.IsTable
    · obtain ⟨t', rfl⟩ := Value.isTable_iff.1 hv
      simp [overlay_table]
    · simp [overlay_of_not_isTable hv]

end Table

namespace Settings

open Table (path path_ne_nil)

variable {t t' : Table} {es : List (String × Value)} {key key' : String} {f : Fault}

/-! ## Storing several settings -/

/-- Neither of two keys leads to the other or beyond it. -/
def Apart (key key' : String) : Prop := ¬ path key <+: path key' ∧ ¬ path key' <+: path key

instance (key key' : String) : Decidable (Apart key key') :=
  inferInstanceAs (Decidable (¬ path key <+: path key' ∧ ¬ path key' <+: path key))

/-- Stores settings, one after the other. -/
def setAll (t : Table) (es : List (String × Value)) : Except Fault Table :=
  es.foldlM (fun t e ↦ set t e.1 e.2) t

/-- Where none is obstructed, settings apart from each other can all be stored, and leave alone what
is apart from them. -/
theorem exists_setAll (hapart : es.Pairwise fun e e' ↦ Apart e.1 e'.1)
    (h : ∀ e ∈ es, ¬ t.Obstructed (path e.1)) : ∃ t', setAll t es = .ok t' ∧
      (∀ e ∈ es, t'.look (path e.1) = some e.2) ∧
      ∀ key, (∀ e ∈ es, Apart e.1 key) → t'.look (path key) = t.look (path key) := by
  induction es generalizing t with
  | nil => exact ⟨t, rfl, by simp, fun _ _ ↦ rfl⟩
  | cons e rest ih =>
    rw [List.pairwise_cons] at hapart
    rw [List.forall_mem_cons] at h
    obtain ⟨t₁, hset, hstore⟩ := exists_set h.1 e.2
    have hrest : ∀ e' ∈ rest, ¬ t₁.Obstructed (path e'.1) := by
      intro e' he'
      rw [Table.obstructed_store?_iff hstore (hapart.1 e' he').1]
      exact h.2 e' he'
    obtain ⟨t', hall, hlook, hother⟩ := ih hapart.2 hrest
    refine ⟨t', ?_, List.forall_mem_cons.2 ⟨?_, hlook⟩, fun key hkey ↦ ?_⟩
    · rw [setAll, List.foldlM_cons, hset]
      exact hall
    · rw [hother e.1 fun e' he' ↦ (hapart.1 e' he').symm,
        Table.look_store?_self (path_ne_nil e.1) hstore]
    · rw [List.forall_mem_cons] at hkey
      rw [hother key hkey.2, Table.look_store?_of_not_prefix hstore hkey.1.1 hkey.1.2]

/-- Where one is obstructed, settings apart from each other cannot all be stored. -/
theorem setAll_of_obstructed (hapart : es.Pairwise fun e e' ↦ Apart e.1 e'.1)
    (h : ∃ e ∈ es, t.Obstructed (path e.1)) : setAll t es = .error .notTable := by
  induction es generalizing t with
  | nil => simp at h
  | cons e rest ih =>
    rw [List.pairwise_cons] at hapart
    rw [setAll, List.foldlM_cons]
    by_cases he : t.Obstructed (path e.1)
    · rw [set_eq_error_iff.2 ⟨rfl, he⟩]
      rfl
    · obtain ⟨t₁, hset, hstore⟩ := exists_set he e.2
      obtain ⟨e', he', hobstructed⟩ := ((List.exists_mem_cons_iff ..).1 h).resolve_left he
      rw [hset]
      refine ih hapart.2 ⟨e', he', ?_⟩
      rwa [Table.obstructed_store?_iff hstore (hapart.1 e' he').1]

/-! ## The environment over a file -/

theorem File.table_holding (t : Table) : (File.holding (.table t)).table = .ok t := by
  cases t <;> rfl

theorem given_of_ne {text : String} (h : text ≠ "") : given (some text) = some text := by
  rw [given, Option.filter_some_pos]
  simpa using h

theorem readDouble?_empty : Text.readDouble? "" = none := by decide

/-- What an environment with a threshold, a level and a format stores. -/
def stores (x : Double) (level format : String) : List (String × Value) :=
  [("analyzer.replica_count_balance_threshold", .float x), ("logging.level", .text level),
    ("logging.format", .text format)]

theorem load_eq_setAll {threshold level format : String} {x : Double}
    (hthreshold : Text.readDouble? threshold = some x) (hlevel : level ≠ "") (hformat : format ≠ "")
    (t : Table) :
    load (.holding (.table t)) ⟨some threshold, some level, some format⟩ =
      setAll (Table.merge defaults t) (stores x level format) := by
  have hgiven : threshold ≠ "" := by
    rintro rfl
    rw [readDouble?_empty] at hthreshold
    cases hthreshold
  rw [load, File.table_holding]
  change Environment.apply _ _ = _
  simp only [Environment.apply, given_of_ne hgiven, given_of_ne hlevel, given_of_ne hformat,
    hthreshold, setAll, stores, List.foldlM_cons, List.foldlM_nil, bind_pure]

theorem pairwise_apart_stores (x : Double) (level format : String) :
    (stores x level format).Pairwise fun e e' ↦ Apart e.1 e'.1 := by
  have hapart : ((stores x level format).map Prod.fst).Pairwise Apart := by
    change ["analyzer.replica_count_balance_threshold", "logging.level",
      "logging.format"].Pairwise Apart
    decide
  exact List.pairwise_map.1 hapart

/-- Over a file, the environment has room for what it stores exactly if the file leaves it. -/
theorem not_obstructed_stores_iff (ht : t.keys.Nodup) (x : Double) (level format : String) :
    (∀ e ∈ stores x level format, ¬ (Table.merge defaults t).Obstructed (path e.1)) ↔
      t.LeavesRoom "analyzer" ∧ t.LeavesRoom "logging" := by
  have hthreshold : path "analyzer.replica_count_balance_threshold" =
    ["analyzer", "replica_count_balance_threshold"] := by decide
  have hlevel : path "logging.level" = ["logging", "level"] := by decide
  have hformat : path "logging.format" = ["logging", "format"] := by decide
  have hanalyzer := Table.leavesRoom_merge (b := defaults) (k := "analyzer") ht rfl
  have hlogging := Table.leavesRoom_merge (b := defaults) (k := "logging") ht rfl
  simp [stores, hthreshold, hlevel, hformat, Table.obstructed_pair, hanalyzer, hlogging]

/-- An environment that sets a threshold, a level and a format prevails over every file that leaves
room for them: nothing in the place of the sections that they go to, or tables there. Then the
settings have what the environment says and, under all keys apart from these, what the file and the
defaults say. Over any other file the settings cannot be made, because the file's value in the place
of a section, be it nothing but a null, hides the section of the defaults. -/
theorem environment_prevails_iff {threshold level format : String} {x : Double}
    (hthreshold : Text.readDouble? threshold = some x) (hlevel : level ≠ "") (hformat : format ≠ "")
    (ht : t.keys.Nodup) :
    (∀ f, load (.holding (.table t)) ⟨some threshold, some level, some format⟩ = .error f ↔
      f = .notTable ∧ ¬ (t.LeavesRoom "analyzer" ∧ t.LeavesRoom "logging")) ∧
    (t.LeavesRoom "analyzer" ∧ t.LeavesRoom "logging" → ∃ s,
      load (.holding (.table t)) ⟨some threshold, some level, some format⟩ = .ok s ∧
      (∀ d, s.get "analyzer.replica_count_balance_threshold" d = .float x) ∧
      (∀ d, s.get "logging.level" d = .text level) ∧
      (∀ d, s.get "logging.format" d = .text format) ∧
      ∀ key, Apart "analyzer.replica_count_balance_threshold" key → Apart "logging.level" key →
        Apart "logging.format" key → ∀ d, s.get key d = (Table.merge defaults t).get key d) := by
  have hapart := pairwise_apart_stores x level format
  rw [load_eq_setAll hthreshold hlevel hformat, ← not_obstructed_stores_iff ht x level format]
  constructor
  · intro f
    by_cases hroom : ∀ e ∈ stores x level format, ¬ (Table.merge defaults t).Obstructed (path e.1)
    · obtain ⟨s, hs, -⟩ := exists_setAll hapart hroom
      refine iff_of_false ?_ fun h ↦ h.2 hroom
      rw [hs]
      simp
    · have hbarred :
          ∃ e ∈ stores x level format, (Table.merge defaults t).Obstructed (path e.1) := by
        push Not at hroom
        exact hroom
      rw [setAll_of_obstructed hapart hbarred, and_iff_left hroom, Except.error.injEq, eq_comm]
  · intro hroom
    obtain ⟨s, hs, hlook, hother⟩ := exists_setAll hapart hroom
    simp only [stores, List.forall_mem_cons] at hlook
    obtain ⟨hx, hl, hf, -⟩ := hlook
    refine ⟨s, hs, fun d ↦ ?_, fun d ↦ ?_, fun d ↦ ?_, fun key h₁ h₂ h₃ d ↦ ?_⟩
    · rw [Table.get, hx, Option.getD_some]
    · rw [Table.get, hl, Option.getD_some]
    · rw [Table.get, hf, Option.getD_some]
    · rw [Table.get, Table.get, hother key]
      simp only [stores, List.forall_mem_cons]
      exact ⟨h₁, h₂, h₃, by simp⟩

/-- A file that sets a part of one section, and another one that the defaults lack. -/
def partialFile : Table :=
  [("logging", .table [("level", .text "WARNING"), ("output", .text "stderr")]),
    ("extra", .null)]

/-- The environment replaces the file's level and keeps its output. -/
theorem environment_prevails_iff_partial :
    Text.readDouble? "1.5" = some (.ofDecimal false 15 (-1)) ∧
      ("DEBUG" : String) ≠ "" ∧ ("console" : String) ≠ "" ∧ partialFile.keys.Nodup ∧
      ∃ s, load (.holding (.table partialFile)) ⟨some "1.5", some "DEBUG", some "console"⟩ = .ok s ∧
        s.get "analyzer.replica_count_balance_threshold" .null = .float (.ofDecimal false 15 (-1)) ∧
        s.get "logging.level" .null = .text "DEBUG" ∧
        s.get "logging.output" .null = .text "stderr" ∧ s.get "extra" (.int 0) = .null := by
  have hread : Text.readDouble? "1.5" = some (.ofDecimal false 15 (-1)) := by decide +kernel
  have hkeys : partialFile.keys.Nodup := by decide
  have hroom : partialFile.LeavesRoom "analyzer" ∧ partialFile.LeavesRoom "logging" := by
    refine ⟨?_, ?_⟩ <;> rintro v ⟨⟩
    trivial
  obtain ⟨s, hs, hthreshold, hlevel, -, hother⟩ := (environment_prevails_iff hread
    (by decide : ("DEBUG" : String) ≠ "") (by decide : ("console" : String) ≠ "") hkeys).2 hroom
  refine ⟨hread, by decide, by decide, hkeys, s, hs, hthreshold _, hlevel _, ?_, ?_⟩
  · exact (hother "logging.output" (by decide) (by decide) (by decide) .null).trans rfl
  · exact (hother "extra" (by decide) (by decide) (by decide) (.int 0)).trans rfl

/-- With nothing but a null in the place of a section, the settings cannot be made, although the
environment says all that would go there. -/
theorem null_section_refused :
    Text.readDouble? "1.5" = some (.ofDecimal false 15 (-1)) ∧
      load (.holding (.table [("logging", .null)])) ⟨some "1.5", some "DEBUG", some "console"⟩ =
        .error .notTable := by
  have hread : Text.readDouble? "1.5" = some (.ofDecimal false 15 (-1)) := by decide +kernel
  refine ⟨hread, ?_⟩
  rw [load_eq_setAll hread (by decide) (by decide)]
  refine setAll_of_obstructed (pairwise_apart_stores ..)
    ⟨_, List.mem_cons_of_mem _ List.mem_cons_self, ?_⟩
  exact ⟨["logging"], by decide, by decide, .null, rfl, id⟩

end Settings

end Rebalance
