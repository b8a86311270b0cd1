/-
Settings that are accepted. They come from an object that keeps the format of
settings, so it has no other keys, and each part that it gives keeps the rule
for this part; a part that is not given is the one that settings begin with.

What is shown of settings elsewhere goes through `exists_of_ofJson`, which tells
the object and what each part is, and through `violations_part`, which gives the
rule for a part that is there. Two consequences are drawn here. The version of
accepted settings has the form of one, since the rule says so and the version
that settings begin with has it too. And an object with any other key is
refused, whatever the rest of it says. The other way round, an object with
nothing but a width of tab stops is accepted for each width that the rule allows
(`ofJson_tabSize`).
-/
import Mathlib.Tactic.ByContra
import NovelScript.Proofs.Saving.Rules
import NovelScript.Settings

namespace NovelScript.Settings

theorem violations_of_ofJson {j : Json} {settings : Settings}
    (h : Settings.ofJson j = .ok settings) :
    Schema.violations Schema.definitions [] Schema.settings j = [] := by
  unfold Settings.ofJson at h
  split at h
  · cases h
  · next hnone =>
    change Schema.settingsViolations j = []
    cases hv : Schema.settingsViolations j with
    | nil => rfl
    | cons e more => rw [hv] at hnone; cases hnone

/-- Settings that are accepted come from an object that keeps their format. -/
theorem exists_of_ofJson {j : Json} {settings : Settings}
    (h : Settings.ofJson j = .ok settings) :
    ∃ ms, Schema.violations Schema.definitions [] Schema.settings (.object ms) = []
      ∧ settings.tabSize = (Json.member? "tabSize" ms).getD (.int 4)
      ∧ settings.indentSize = (Json.member? "indentSize" ms).getD (.int 4)
      ∧ settings.formatVersion
        = (Json.member? "formatVersion" ms).getD
          (.text NovelScript.formatVersion) := by
  have hnil := violations_of_ofJson h
  have htype := Schema.plainMessages_eq_nil hnil
    (k := .type .object) (by simp [Schema.settings, Schema.closedObject]) rfl
  unfold Settings.ofJson at h
  split at h
  · cases h
  · cases j with
    | object ms =>
        obtain rfl := Except.ok.inj h
        exact ⟨ms, hnil, rfl, rfl, rfl⟩
    | _ => simp [Schema.plainMessages, Json.hasType] at htype

/-- A width of tab stops is accepted as the only part of settings, if it is
between one and sixteen; the other parts are those that settings begin with. -/
theorem ofJson_tabSize {n : Int} (hleast : 1 ≤ n) (hmost : n ≤ 16) :
    Settings.ofJson (.object [("tabSize", .int n)])
      = .ok { tabSize := .int n } := by
  have hwidth : Schema.Accepts [.type .integer, .atLeast 1, .atMost 16]
      (.int n) :=
    .cons (Schema.passes_type rfl) (List.forall_mem_cons.mpr
      ⟨Schema.passes_atLeast hleast,
        List.forall_mem_singleton.mpr (Schema.passes_atMost hmost)⟩)
  have haccepts : Schema.Accepts Schema.settings
      (.object [("tabSize", .int n)]) := by
    refine Schema.accepts_closedObject (fun _ h => nomatch h) ?_
      (List.forall_mem_singleton.mpr List.mem_cons_self)
    intro p hp v hv
    simp only [List.mem_cons, List.not_mem_nil, or_false] at hp
    obtain rfl | rfl | rfl | rfl := hp
    · simp only [Json.member?, if_true, Option.some.injEq] at hv
      exact hv ▸ hwidth
    all_goals simp [Json.member?] at hv
  have hnone : Schema.settingsViolations (.object [("tabSize", .int n)]) = [] :=
    haccepts []
  rw [Settings.ofJson, hnone]
  rfl

/-- A setting that is given keeps the rule for it. -/
theorem violations_part {ms : List (String × Json)}
    (h : Schema.violations Schema.definitions [] Schema.settings (.object ms) = [])
    {p : String × Schema}
    (hp : p ∈ [("tabSize", [.type .integer, .atLeast 1, .atMost 16]),
      ("indentSize", [.type .integer, .atLeast 1, .atMost 16]),
      ("insertBlankLines", Schema.flag),
      ("formatVersion", Schema.versionText)])
    {v : Json} (hv : Json.member? p.1 ms = some v) :
    Schema.violations Schema.definitions ([] ++ [.name p.1]) p.2 v = [] :=
  Schema.violations_part_eq_nil h
    (by simp [Schema.settings, Schema.closedObject]) hp hv

/-- The version of accepted settings has the form of one. -/
theorem isVersion_of_ofJson {j : Json} {settings : Settings}
    (h : Settings.ofJson j = .ok settings) :
    Schema.isVersion settings.version = true := by
  obtain ⟨ms, hnil, -, -, hversion⟩ := Settings.exists_of_ofJson h
  have hdefault : Schema.isVersion NovelScript.formatVersion = true := by
    decide
  have hempty : ¬ Schema.isVersion "" = true := by decide
  unfold Settings.version
  rw [hversion]
  cases hv : Json.member? "formatVersion" ms with
  | none => exact hdefault
  | some v =>
      have hkept := Settings.violations_part hnil
        (p := ("formatVersion", Schema.versionText)) (by simp) hv
      have htype := Schema.plainMessages_eq_nil hkept (k := .type .string)
        (by simp [Schema.versionText]) rfl
      have hform := Schema.plainMessages_eq_nil hkept (k := .version)
        (by simp [Schema.versionText]) rfl
      cases v with
      | text s =>
          have hs : Schema.isVersion s = true := by
            by_contra hnot
            simp [Schema.plainMessages, hnot] at hform
          rw [Option.getD_some]
          split
          · next heq => exact absurd (Json.text.inj heq ▸ hs) hempty
          · next t heq => exact Json.text.inj heq ▸ hs
          · next hother => exact absurd rfl (hother s)
      | _ => simp [Schema.plainMessages, Json.hasType] at htype

/-- Settings with another key are not accepted. -/
theorem exists_error_of_other {ms : List (String × Json)} {m : String × Json}
    (hm : m ∈ ms) (hother : m.1 ∉ ["tabSize", "indentSize",
      "insertBlankLines", "formatVersion"]) :
    ∃ e, Settings.ofJson (.object ms) = .error e := by
  cases h : Settings.ofJson (.object ms) with
  | error e => exact ⟨e, rfl⟩
  | ok settings =>
      exfalso
      have hnil := violations_of_ofJson h
      have hclosed := Schema.plainMessages_eq_nil hnil
        (k := .closed ["tabSize", "indentSize", "insertBlankLines",
          "formatVersion"]) (by simp [Schema.settings, Schema.closedObject]) rfl
      have hextra : m.1 ∈ (ms.map (·.1)).filter fun n =>
          !List.contains ["tabSize", "indentSize", "insertBlankLines",
            "formatVersion"] n :=
        List.mem_filter.mpr ⟨List.mem_map_of_mem hm, by simpa using hother⟩
      simp only [Schema.plainMessages] at hclosed
      split at hclosed
      · next hempty =>
        rw [List.isEmpty_iff.mp hempty] at hextra
        cases hextra
      · cases hclosed

end NovelScript.Settings
