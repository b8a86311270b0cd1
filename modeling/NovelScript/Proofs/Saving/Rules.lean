/-
Values that keep the rules of the formats. A schema accepts a value if all of
its keywords pass it, so there is one lemma for every keyword, and no later
proof looks into the checking itself.

# No violations

Checking gives the list of all violations, with paths, and a value is accepted
if the list is empty, whatever the path is that checking begins at. So `Accepts`
and `Passes` say it of every path. Checking goes down along the value and the
schema at once; `keyword_eq` is its one step, with the recursion in it named but
not opened, and the lemmas for the keywords are read off from it.

# Definitions

A rule may refer to a definition of the format, and definitions refer to one
another, as blocks hold statements and these hold blocks. There is no recursion
in `Accepts` for that: a block is accepted if the rule for statements accepts
each of them (`accepts_block`), and it is the induction over the statements that
comes to an end.
-/
import NovelScript.Schema.Formats

namespace NovelScript.Schema

/-- A value breaks no rule of a schema. -/
def Accepts (s : Schema) (v : Json) : Prop :=
  ∀ path, violations definitions path s v = []

/-- A value does not break the rule of a keyword. -/
def Passes (k : Keyword) (v : Json) : Prop :=
  ∀ path typed, keyword definitions path typed k v = []

-- ============================================================== one step

/-- The checking of a schema goes to its keywords. -/
theorem violations_eq (path : List PathPart) (s : Schema) (v : Json) :
    violations definitions path s v
      = keywordsFrom definitions path (isTyped s v) s v := by
  rw [violations]

/-- What the checking of a keyword goes to. -/
theorem keyword_eq (path : List PathPart) (typed : Bool) (k : Keyword)
    (v : Json) :
    keyword definitions path typed k v =
      match k, v with
      | .properties ps, .object ms => properties definitions path ps ms
      | .firstItems ss, .list items => firstItems definitions path 0 ss items
      | .items skipped s, .list items =>
        itemsFrom definitions path s 0 skipped items
      | .itemsOf d, .list items =>
        itemsFrom definitions path (definitions d) 0 0 items
      | .all ss, v => allOf definitions path ss v
      | .implies condition conclusion, v =>
        if (violations definitions path condition v).isEmpty then
          violations definitions path conclusion v
        else []
      | .also s, v => violations definitions path s v
      | k, v => (plainMessages k v).map fun m => ⟨path, m, typed⟩ := by
  refine (keyword.eq_def ..).trans ?_
  cases k <;> cases v <;> rfl

theorem keywordsFrom_eq_nil {s : Schema} {v : Json} (h : ∀ k ∈ s, Passes k v)
    (path : List PathPart) (typed : Bool) :
    keywordsFrom definitions path typed s v = [] := by
  induction s with
  | nil => rw [keywordsFrom]
  | cons k s ih =>
      rw [keywordsFrom, h k List.mem_cons_self,
        ih fun k hk => h k (List.mem_cons_of_mem _ hk), List.append_nil]

/-- A value that all keywords pass is accepted. -/
theorem accepts_of_passes {s : Schema} {v : Json} (h : ∀ k ∈ s, Passes k v) :
    Accepts s v := by
  intro path
  rw [violations_eq]
  exact keywordsFrom_eq_nil h path _

theorem Accepts.cons {k : Keyword} {s : Schema} {v : Json} (hk : Passes k v)
    (hs : ∀ k ∈ s, Passes k v) : Accepts (k :: s) v :=
  accepts_of_passes (List.forall_mem_cons.mpr ⟨hk, hs⟩)

theorem accepts_single {k : Keyword} {v : Json} (h : Passes k v) :
    Accepts [k] v :=
  .cons h (by simp)

theorem accepts_pair {k l : Keyword} {v : Json} (hk : Passes k v)
    (hl : Passes l v) : Accepts [k, l] v :=
  .cons hk (by simpa using hl)

-- ============================================================ one keyword

/-- Whether a keyword looks at nothing but the value itself. -/
def isPlain : Keyword → Bool
  | .properties _ | .firstItems _ | .items .. | .itemsOf _ | .all _
  | .implies .. | .also _ => false
  | _ => true

/-- The violations of such a keyword are its messages. -/
theorem keyword_of_plain {k : Keyword} (hk : isPlain k = true)
    (path : List PathPart) (typed : Bool) (v : Json) :
    keyword definitions path typed k v
      = (plainMessages k v).map fun m => ⟨path, m, typed⟩ := by
  rw [keyword_eq]
  cases k <;> first | exact absurd hk Bool.false_ne_true | rfl

theorem passes_of_plain {k : Keyword} {v : Json} (hk : isPlain k = true)
    (h : plainMessages k v = []) : Passes k v := by
  intro path typed
  rw [keyword_of_plain hk, h]
  rfl

theorem keyword_eq_nil {s : Schema} {v : Json} {path : List PathPart}
    (h : violations definitions path s v = []) {k : Keyword} (hk : k ∈ s) :
    keyword definitions path (isTyped s v) k v = [] := by
  rw [violations_eq] at h
  generalize isTyped s v = typed at h ⊢
  induction s with
  | nil => cases hk
  | cons l s ih =>
      rw [keywordsFrom] at h
      obtain ⟨hl, hs⟩ := List.append_eq_nil_iff.mp h
      rcases List.mem_cons.mp hk with rfl | hk
      · exact hl
      · exact ih hk hs

/-- A value that keeps a schema gives such a keyword no message. -/
theorem plainMessages_eq_nil {s : Schema} {v : Json} {path : List PathPart}
    (h : violations definitions path s v = []) {k : Keyword} (hk : k ∈ s)
    (hplain : isPlain k = true) : plainMessages k v = [] := by
  have hnone := keyword_eq_nil h hk
  rw [keyword_of_plain hplain] at hnone
  exact List.map_eq_nil_iff.mp hnone

theorem passes_type {t : JsonType} {v : Json} (h : v.hasType t = true) :
    Passes (.type t) v :=
  passes_of_plain rfl (if_pos h)

theorem passes_constant (s : String) : Passes (.constant s) (.text s) :=
  passes_of_plain rfl (if_pos rfl)

theorem passes_oneOf {ss : List String} {s : String} (h : s ∈ ss) :
    Passes (.oneOf ss) (.text s) :=
  passes_of_plain rfl (if_pos (List.contains_iff_mem.mpr h))

theorem passes_nonEmpty_text {s : String} (h : s ≠ "") :
    Passes .nonEmpty (.text s) :=
  passes_of_plain rfl (if_neg h)

theorem passes_nonEmpty_list {items : List Json} (h : items ≠ []) :
    Passes .nonEmpty (.list items) :=
  passes_of_plain rfl (if_neg (by simpa using h))

theorem passes_atLeast {b i : Int} (h : b ≤ i) : Passes (.atLeast b) (.int i) :=
  passes_of_plain rfl (by
      show (if (Number.int i).isBelow b = true then _ else []) = []
      rw [if_neg (by simp [Number.isBelow]; omega)])

theorem passes_atMost {b i : Int} (h : i ≤ b) : Passes (.atMost b) (.int i) :=
  passes_of_plain rfl (by
      show (if (Number.int i).isAbove b = true then _ else []) = []
      rw [if_neg (by simp [Number.isAbove]; omega)])

theorem passes_version {s : String} (h : isVersion s = true) :
    Passes .version (.text s) :=
  passes_of_plain rfl (if_pos h)

theorem passes_required {names : List String} {ms : List (String × Json)}
    (h : ∀ n ∈ names, (Json.member? n ms).isSome = true) :
    Passes (.required names) (.object ms) :=
  passes_of_plain rfl (by
    refine List.map_eq_nil_iff.mpr (List.filter_eq_nil_iff.mpr fun n hn => ?_)
    have := h n hn
    simp only [Option.isSome_iff_ne_none] at this
    simpa using this)

theorem passes_closed {names : List String} {ms : List (String × Json)}
    (h : ∀ m ∈ ms, m.1 ∈ names) : Passes (.closed names) (.object ms) :=
  passes_of_plain rfl (by
    have hextra : ((ms.map (·.1)).filter fun n => !names.contains n) = [] := by
      refine List.filter_eq_nil_iff.mpr fun n hn => ?_
      obtain ⟨m, hm, rfl⟩ := List.mem_map.mp hn
      simpa using h m hm
    refine if_pos ?_
    rw [hextra, List.isEmpty_nil])

-- ========================================================= parts of a value

theorem properties_eq_nil {ps : List (String × Schema)}
    {ms : List (String × Json)} (path : List PathPart)
    (h : ∀ p ∈ ps, ∀ v, Json.member? p.1 ms = some v → Accepts p.2 v) :
    properties definitions path ps ms = [] := by
  induction ps with
  | nil => rw [properties]
  | cons p ps ih =>
      obtain ⟨name, s⟩ := p
      have hhere := h _ List.mem_cons_self
      rw [properties, ih fun p hp => h p (List.mem_cons_of_mem _ hp),
        List.append_nil]
      split
      · next v hv => exact hhere v hv _
      · rfl

theorem passes_properties {ps : List (String × Schema)}
    {ms : List (String × Json)}
    (h : ∀ p ∈ ps, ∀ v, Json.member? p.1 ms = some v → Accepts p.2 v) :
    Passes (.properties ps) (.object ms) := by
  intro path typed
  rw [keyword_eq]
  exact properties_eq_nil path h

/-- A part of an object that keeps a schema keeps the rule for this part. -/
theorem violations_part_eq_nil {s : Schema} {ms : List (String × Json)}
    {path : List PathPart} (h : violations definitions path s (.object ms) = [])
    {ps : List (String × Schema)} (hps : .properties ps ∈ s)
    {p : String × Schema} (hp : p ∈ ps) {v : Json}
    (hv : Json.member? p.1 ms = some v) :
    violations definitions (path ++ [.name p.1]) p.2 v = [] := by
  have hnone : properties definitions path ps ms = [] :=
    (keyword_eq path _ _ _).symm.trans (keyword_eq_nil h hps)
  clear h hps
  induction ps with
  | nil => cases hp
  | cons q ps ih =>
      rw [properties] at hnone
      obtain ⟨hq, hrest⟩ := List.append_eq_nil_iff.mp hnone
      rcases List.mem_cons.mp hp with rfl | hp
      · split at hq
        · next w hw =>
          rw [hv, Option.some.injEq] at hw
          rw [hw]
          exact hq
        · next hw => rw [hv] at hw; cases hw
      · exact ih hp hrest

theorem itemsFrom_eq_nil {s : Schema} {skipped : Nat} {items : List Json}
    (path : List PathPart) (i : Nat)
    (h : ∀ v ∈ items.drop (skipped - i), Accepts s v) :
    itemsFrom definitions path s i skipped items = [] := by
  induction items generalizing i with
  | nil => rw [itemsFrom]
  | cons v vs ih =>
      rw [itemsFrom]
      by_cases hi : i < skipped
      · rw [if_pos hi, List.nil_append]
        refine ih (i + 1) fun w hw => h w ?_
        rwa [show skipped - i = skipped - (i + 1) + 1 by omega,
          List.drop_succ_cons]
      · rw [if_neg hi]
        rw [show skipped - i = 0 by omega, List.drop_zero] at h
        rw [h v List.mem_cons_self, List.nil_append]
        refine ih (i + 1) fun w hw => h w (List.mem_cons_of_mem _ ?_)
        exact List.mem_of_mem_drop hw

theorem passes_items {s : Schema} {skipped : Nat} {items : List Json}
    (h : ∀ v ∈ items.drop skipped, Accepts s v) :
    Passes (.items skipped s) (.list items) := by
  intro path typed
  rw [keyword_eq]
  exact itemsFrom_eq_nil path 0 (by simpa using h)

theorem passes_itemsOf {d : String} {items : List Json}
    (h : ∀ v ∈ items, Accepts (definitions d) v) :
    Passes (.itemsOf d) (.list items) := by
  intro path typed
  rw [keyword_eq]
  exact itemsFrom_eq_nil path 0 (by simpa using h)

/-- A rule for the first item alone. -/
theorem passes_firstItem {s : Schema} {v : Json} (vs : List Json)
    (h : Accepts s v) : Passes (.firstItems [s]) (.list (v :: vs)) := by
  intro path typed
  rw [keyword_eq]
  simp only [firstItems, h _, List.nil_append]

-- ======================================================= schemas in schemas

theorem passes_also {s : Schema} {v : Json} (h : Accepts s v) :
    Passes (.also s) v := by
  intro path typed
  rw [keyword_eq]
  exact h path

theorem passes_implies {condition conclusion : Schema} {v : Json}
    (h : (∀ path, violations definitions path condition v = [] →
      Accepts conclusion v)) : Passes (.implies condition conclusion) v := by
  intro path typed
  rw [keyword_eq]
  dsimp only
  split
  · next hc => exact h path (List.isEmpty_iff.mp hc) path
  · rfl

theorem allOf_eq_nil {ss : List Schema} {v : Json} (path : List PathPart)
    (h : ∀ s ∈ ss, Accepts s v) : allOf definitions path ss v = [] := by
  induction ss with
  | nil => rw [allOf]
  | cons s ss ih =>
      rw [allOf, h s List.mem_cons_self,
        ih fun s hs => h s (List.mem_cons_of_mem _ hs), List.append_nil]

theorem passes_all {ss : List Schema} {v : Json} (h : ∀ s ∈ ss, Accepts s v) :
    Passes (.all ss) v := by
  intro path typed
  rw [keyword_eq]
  exact allOf_eq_nil path h

/-- An object with all members that it needs, and none that has no place. -/
theorem accepts_closedObject {required : List String}
    {ps : List (String × Schema)} {ms : List (String × Json)}
    (hrequired : ∀ n ∈ required, (Json.member? n ms).isSome = true)
    (hparts : ∀ p ∈ ps, ∀ v, Json.member? p.1 ms = some v → Accepts p.2 v)
    (hclosed : ∀ m ∈ ms, m.1 ∈ ps.map (·.1)) :
    Accepts (closedObject required ps) (.object ms) := by
  refine accepts_of_passes fun k hk => ?_
  rw [closedObject] at hk
  rcases List.mem_append.mp hk with hk | hk
  · rcases List.mem_append.mp hk with hk | hk
    · obtain rfl := List.mem_singleton.mp hk
      exact passes_type rfl
    · split at hk
      · cases hk
      · obtain rfl := List.mem_singleton.mp hk
        exact passes_required hrequired
  · rcases List.mem_cons.mp hk with rfl | hk
    · exact passes_properties hparts
    · obtain rfl := List.mem_singleton.mp hk
      exact passes_closed hclosed

-- ============================================================ plain values

theorem accepts_text (s : String) : Accepts text (.text s) :=
  accepts_single (passes_type rfl)

theorem accepts_name {s : String} (h : s ≠ "") : Accepts name (.text s) :=
  accepts_pair (passes_type rfl) (passes_nonEmpty_text h)

theorem accepts_flag (b : Bool) : Accepts flag (.bool b) :=
  accepts_single (passes_type rfl)

theorem accepts_number (n : Number) : Accepts number (.number n) :=
  accepts_single (passes_also (accepts_single (passes_type rfl)))

theorem accepts_line {n : Nat} (h : 1 ≤ n) : Accepts line (.int n) :=
  accepts_pair (passes_type rfl) (passes_atLeast (by omega))

theorem accepts_texts (ss : List String) :
    Accepts texts (.list (ss.map .text)) := by
  refine accepts_single (passes_also (accepts_pair (passes_type rfl)
    (passes_items fun v hv => ?_)))
  obtain ⟨s, -, rfl⟩ := List.mem_map.mp (List.mem_of_mem_drop hv)
  exact accepts_text s

theorem accepts_block {vs : List Json} (h : ∀ v ∈ vs, Accepts node v) :
    Accepts block (.list vs) :=
  accepts_single (passes_also (accepts_pair (passes_type rfl)
    (passes_itemsOf fun v hv => accepts_single (passes_also (h v hv)))))

end NovelScript.Schema
