-- The toolchains of a configuration that was loaded. Loading sees to it that
-- no id stands twice, so a default names one toolchain; whether that one is
-- valid, and for which language it is, is not looked at.
import CompileCommands.Config.Resolution
import CompileCommands.Proofs.Toolchain.Priority
import Mathlib.Data.List.Nodup

namespace CompileCommands

/-! ## Usable toolchains -/

/-- A valid toolchain for a language. -/
def Toolchain.IsUsable (t : Toolchain) (language : Language) : Prop :=
  t.valid = true ∧ t.language = language

/-- What a search finds is usable, or else it is the default as it is. -/
theorem Registry.resolveIn_usable_or_default (r : Registry) (env : Environment) (host : Host)
    (compiler : Option String) (language : Language) :
    (∃ t, (r.resolveIn env host compiler language).toolchain = some t ∧ t.IsUsable language ∧
        ¬ (r.resolveIn env host compiler language).step.IsDefault) ∨
      (r.resolveIn env host compiler language).toolchain = env.default? language ∧
        (r.resolveIn env host compiler language).step.IsDefault := by
  rcases r.resolveIn_cases env host compiler language with
    ⟨path, rank, index, t, hbest, hfound⟩ | hfound | ⟨path, hfound⟩
  · rw [hfound]
    exact .inl ⟨t, rfl, ⟨hbest.valid, hbest.ofLanguage⟩, not_isDefault_stepOf rank⟩
  · rw [hfound, resolveDefault_eq]
    exact .inr ⟨rfl, .inl rfl⟩
  · rw [hfound, fallBack_eq]
    exact .inr ⟨rfl, .inr rfl⟩

/-! ## Checked configurations -/

namespace Config

theorem nodup_of_checkIds {seen : List String} {toolchains : List Toolchain}
    (h : checkIds seen toolchains = .ok ()) :
    (toolchains.map (·.id)).Nodup ∧ ∀ t ∈ toolchains, t.id ∉ seen := by
  induction toolchains generalizing seen with
  | nil => exact ⟨List.nodup_nil, nofun⟩
  | cons t rest ih =>
    rw [checkIds] at h
    split at h
    · cases h
    · split at h
      · cases h
      · rename_i hfresh
        obtain ⟨hnodup, hapart⟩ := ih h
        constructor
        · refine List.nodup_cons.mpr ⟨fun hmem => ?_, hnodup⟩
          obtain ⟨t', ht', hid⟩ := List.mem_map.mp hmem
          exact hapart t' ht' (hid ▸ List.mem_cons_self)
        · refine List.forall_mem_cons.mpr ⟨hfresh, fun t' ht' hseen => ?_⟩
          exact hapart t' ht' (List.mem_cons_of_mem _ hseen)

theorem check_of_ofText {text : String} {c : Config} (h : ofText text = .ok c) :
    c.check = .ok () := by
  unfold ofText at h
  split at h
  · cases h
  · rename_i config _
    cases hcheck : config.check with
    | error e =>
      rw [hcheck] at h
      cases h
    | ok _ =>
      rw [hcheck] at h
      cases h
      exact hcheck

theorem checkIds_of_check {c : Config} (h : c.check = .ok ()) :
    checkIds [] c.toolchains = .ok () := by
  unfold check at h
  split at h
  · cases h
  · cases hids : checkIds [] c.toolchains with
    | error e =>
      simp only [hids] at h
      cases h
    | ok _ => rfl

theorem registry_of_resolve {c : Config} {base : Path} {rc : ResolvedConfig}
    (h : c.resolve base = .ok rc) : rc.registry = c.registry base := by
  unfold resolve at h
  simp only at h
  cases hroot : c.rootFor base (Path.absolutize ⟨c.project.database⟩ base) with
  | error e =>
    rw [hroot] at h
    cases h
  | ok root =>
    rw [hroot] at h
    cases h
    rfl

/-- The id that a configuration names for a language. -/
def defaultId? (c : Config) : Language → Option String
  | .c => c.environment.defaultC
  | .cxx => c.environment.defaultCxx

theorem registry_default? (c : Config) (base : Path) (language : Language) :
    (c.registry base).environment.default? language =
      (c.defaultId? language).bind fun id => c.toolchains.find? (·.id == id) := by
  cases language <;> rfl

/-- Where no id stands twice, a default names the one toolchain with its id. -/
theorem registry_default?_eq_some {c : Config} (h : (c.toolchains.map (·.id)).Nodup)
    {base : Path} {language : Language} {t : Toolchain} :
    (c.registry base).environment.default? language = some t ↔
      t ∈ c.toolchains ∧ c.defaultId? language = some t.id := by
  rw [registry_default?, Option.bind_eq_some_iff]
  constructor
  · rintro ⟨id, hid, hfind⟩
    obtain rfl : t.id = id := by simpa using List.find?_some hfind
    exact ⟨List.mem_of_find?_eq_some hfind, hid⟩
  · rintro ⟨hmem, hid⟩
    refine ⟨t.id, hid, ?_⟩
    obtain ⟨t', hfind⟩ := Option.isSome_iff_exists.mp
      (List.find?_isSome (p := (·.id == t.id)).mpr ⟨t, hmem, by simp⟩)
    have hsame : t'.id = t.id := by simpa using List.find?_some hfind
    rw [hfind, List.inj_on_of_nodup_map h (List.mem_of_find?_eq_some hfind) hmem hsame]

/-! ## Usable defaults -/

/-- With a configuration that was loaded, the toolchain that is found is usable,
unless it is a default that names an invalid toolchain or one for the other
language. -/
theorem resolved_usable_iff {text : String} {c : Config} {base : Path} {rc : ResolvedConfig}
    (hload : ofText text = .ok c) (hresolve : c.resolve base = .ok rc) (host : Host)
    (compiler : Option String) (language : Language) :
    (∀ t, (rc.registry.resolve host compiler language).toolchain = some t →
        t.IsUsable language) ↔
      ((rc.registry.resolve host compiler language).step.IsDefault →
        ∀ t ∈ c.toolchains, c.defaultId? language = some t.id → t.IsUsable language) := by
  have hnodup := (nodup_of_checkIds (checkIds_of_check (check_of_ofText hload))).1
  rw [registry_of_resolve hresolve, Registry.resolve]
  rcases (c.registry base).resolveIn_usable_or_default (c.registry base).environment host compiler
    language with ⟨t, hfound, husable, hstep⟩ | ⟨hfound, hstep⟩
  · refine ⟨fun _ hdefault => absurd hdefault hstep, fun _ t' ht' => ?_⟩
    rwa [← Option.some.inj (hfound.symm.trans ht')]
  · rw [hfound]
    constructor
    · exact fun h _ t hmem hid => h t ((registry_default?_eq_some hnodup).mpr ⟨hmem, hid⟩)
    · intro h t ht
      obtain ⟨hmem, hid⟩ := (registry_default?_eq_some hnodup).mp ht
      exact h hstep t hmem hid

/-- A configuration with one toolchain, the default for C, which is valid or not. -/
def oneToolchain (valid : Bool) : Config where
  project := ⟨"compile_commands.json", none, none, true⟩
  scan := .standard
  environment := ⟨none, some "old-gcc", none, none⟩
  toolchains := [⟨"old-gcc", .gcc, .c, ⟨"/old/gcc"⟩, valid⟩]

/-- The text of the configuration with one toolchain. -/
def oneToolchainText (valid : String) : String :=
  "[project]\ndatabase = \"compile_commands.json\"\n[environment]\ndefault_c = \"old-gcc\"\n" ++
    "[[toolchains]]\nid = \"old-gcc\"\nfamily = \"gcc\"\nlanguage = \"c\"\n" ++
    "compiler = \"/old/gcc\"\nvalid = " ++ valid ++ "\n"

/-- The configuration with one toolchain, seen from a directory. -/
def oneToolchainIn (base : String) (valid : Bool) : ResolvedConfig where
  database := ⟨base ++ "/compile_commands.json"⟩
  root := ⟨base⟩
  extrasSuffix := none
  skipUnchanged := true
  scan := .standard
  host := .unix
  registry := (oneToolchain valid).registry ⟨base⟩

theorem resolved_usable_oneToolchain :
    ofText (oneToolchainText "true") = .ok (oneToolchain true) ∧
      (oneToolchain true).resolve ⟨"/work"⟩ = .ok (oneToolchainIn "/work" true) ∧
      ((oneToolchainIn "/work" true).registry.resolve .unix none .c).toolchain =
        some ⟨"old-gcc", .gcc, .c, ⟨"/old/gcc"⟩, true⟩ ∧
      ∀ t, ((oneToolchainIn "/work" true).registry.resolve .unix none .c).toolchain = some t →
        t.IsUsable .c := by
  have hload : ofText (oneToolchainText "true") = .ok (oneToolchain true) := by decide +kernel
  have hresolve : (oneToolchain true).resolve ⟨"/work"⟩ = .ok (oneToolchainIn "/work" true) := by
    decide +kernel
  refine ⟨hload, hresolve, by decide +kernel, ?_⟩
  refine (resolved_usable_iff hload hresolve .unix none .c).mpr fun _ t ht _ => ?_
  rw [List.mem_singleton.mp ht]
  exact ⟨rfl, rfl⟩

/-- A default that names an invalid toolchain is taken all the same. -/
theorem not_resolved_usable : ¬ ∀ (text : String) (c : Config) (base : Path) (rc : ResolvedConfig),
    ofText text = .ok c → c.resolve base = .ok rc →
      ∀ (host : Host) (compiler : Option String) (language : Language) (t : Toolchain),
        (rc.registry.resolve host compiler language).toolchain = some t →
          t.IsUsable language := by
  intro h
  have husable := h (oneToolchainText "false") (oneToolchain false) ⟨"/work"⟩
    (oneToolchainIn "/work" false) (by decide +kernel) (by decide +kernel) .unix none .c
    ⟨"old-gcc", .gcc, .c, ⟨"/old/gcc"⟩, false⟩ (by decide +kernel)
  exact absurd husable.1 (by decide)

end Config

end CompileCommands
