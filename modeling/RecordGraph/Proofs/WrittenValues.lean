/-
# Values in writing

The JSON text of a value determines the value, and where it ends. So values of the same text are
the same value: whole numbers, floats and texts that look alike are told apart, the two zeros
among floats too, and so are lists and objects that contain them. This needs that floats are
finite, as infinities and NaN are written as null.

The proof compares two texts that go on in any way. A text ends where something follows that it
cannot go on with: a comma, or the end of what encloses it.
-/
import Mathlib.Tactic.IntervalCases
import RecordGraph.Proofs.WrittenNumbers
import RecordGraph.Value.Reader

namespace RecordGraph.Value

/-! ## Quoted texts -/

/-- The first character of a text in writing, and what follows it. -/
def unescape? : List Char → Option (Char × List Char)
  | [] => none
  | '"' :: _ => none
  | '\\' :: 'u' :: '0' :: '0' :: high :: low :: rest => do
    return (Char.ofNat (16 * (← Reader.hexDigit? high) + (← Reader.hexDigit? low)), rest)
  | '\\' :: c :: rest => (Reader.escapeOf? c).map fun d => (d, rest)
  | c :: rest => some (c, rest)

theorem unescape?_control {n : Nat} (h : n < 32) (rest : List Char) :
    unescape? ((escapedChar (Char.ofNat n)).toList ++ rest) = some (Char.ofNat n, rest) := by
  interval_cases n <;> rfl

theorem toList_escapedChar_of_plain {c : Char} (hcontrol : ¬ c.toNat < 32) (hquote : c ≠ '"')
    (hslash : c ≠ '\\') : (escapedChar c).toList = [c] := by
  have hnumber : ∀ d : Char, d.toNat < 32 → c ≠ d := by
    rintro d hd rfl
    exact hcontrol hd
  have hsmall : ∀ n < 32, c.toNat ≠ n := fun n hn heq => hcontrol (heq ▸ hn)
  unfold escapedChar
  simp [hquote, hslash, hnumber '\n' (by decide), hnumber '\r' (by decide),
    hnumber '\t' (by decide), hsmall 8 (by decide), hsmall 12 (by decide), hcontrol,
    show ¬ c.toNat < 16 by omega]

/-- Every character can be told from its writing. -/
theorem unescape?_escapedChar (c : Char) (rest : List Char) :
    unescape? ((escapedChar c).toList ++ rest) = some (c, rest) := by
  by_cases hcontrol : c.toNat < 32
  · have hwritten := unescape?_control hcontrol rest
    rwa [Char.ofNat_toNat] at hwritten
  by_cases hquote : c = '"'
  · subst hquote
    rfl
  by_cases hslash : c = '\\'
  · subst hslash
    rfl
  rw [toList_escapedChar_of_plain hcontrol hquote hslash, List.singleton_append]
  unfold unescape?
  split
  · cases ‹_ = []›
  · simp_all
  · simp_all
  · simp_all
  · simp_all

/-- The characters of a text, as they are written between the quotes. -/
def escapedChars (cs : List Char) : List Char := cs.flatMap fun c => (escapedChar c).toList

theorem unescape?_escapedChars (c : Char) (cs rest : List Char) :
    unescape? (escapedChars (c :: cs) ++ rest) = some (c, escapedChars cs ++ rest) := by
  rw [escapedChars, List.flatMap_cons, List.append_assoc]
  exact unescape?_escapedChar c _

/-- Texts that are written alike up to a quote are the same text. -/
theorem escapedChars_cancel {cs ds u v : List Char}
    (h : escapedChars cs ++ '"' :: u = escapedChars ds ++ '"' :: v) : cs = ds ∧ u = v := by
  induction cs generalizing ds with
  | nil =>
      cases ds with
      | nil => exact ⟨rfl, (List.cons.inj h).2⟩
      | cons d rest =>
          have hread := unescape?_escapedChars d rest ('"' :: v)
          rw [← h] at hread
          cases hread
  | cons c rest ih =>
      have hread := unescape?_escapedChars c rest ('"' :: u)
      rw [h] at hread
      cases ds with
      | nil => cases hread
      | cons d others =>
          rw [unescape?_escapedChars, Option.some.injEq, Prod.mk.injEq] at hread
          obtain ⟨rfl, hrest⟩ := hread
          obtain ⟨rfl, rfl⟩ := ih hrest.symm
          exact ⟨rfl, rfl⟩

theorem toList_escaped (s : String) :
    (escaped s).toList = '"' :: (escapedChars s.toList ++ ['"']) := by
  simp [escaped, escapedChars, String.toList_join, List.flatMap_map]

theorem escaped_cancel {s t : String} {u v : List Char}
    (h : (escaped s).toList ++ u = (escaped t).toList ++ v) : s = t ∧ u = v := by
  rw [toList_escaped, toList_escaped] at h
  simp only [List.cons_append, List.append_assoc, List.nil_append, List.cons.injEq, true_and] at h
  obtain ⟨htexts, hrest⟩ := escapedChars_cancel h
  exact ⟨String.toList_inj.mp htexts, hrest⟩

/-! ## Values that documents can hold -/

mutual

/-- All floats of the value are finite, as in documents. -/
def Finite : Value → Prop
  | .float x => (Decimal.Binary64.ofFloat? x).isSome = true
  | .list items => FiniteItems items
  | .object members => FiniteMembers members
  | _ => True

/-- All items are finite. -/
def FiniteItems : List Value → Prop
  | [] => True
  | v :: rest => v.Finite ∧ FiniteItems rest

/-- The values of all members are finite. -/
def FiniteMembers : List (String × Value) → Prop
  | [] => True
  | (_, v) :: rest => v.Finite ∧ FiniteMembers rest

end

mutual

/-- Whether all floats of a value are finite can be decided. -/
def decidableFinite : (v : Value) → Decidable v.Finite
  | .null => .isTrue trivial
  | .bool _ => .isTrue trivial
  | .int _ => .isTrue trivial
  | .float _ => inferInstanceAs (Decidable (_ = true))
  | .text _ => .isTrue trivial
  | .list items => decidableFiniteItems items
  | .object members => decidableFiniteMembers members

/-- Whether all items are finite can be decided. -/
def decidableFiniteItems : (items : List Value) → Decidable (FiniteItems items)
  | [] => .isTrue trivial
  | v :: rest => @instDecidableAnd _ _ (decidableFinite v) (decidableFiniteItems rest)

/-- Whether the values of all members are finite can be decided. -/
def decidableFiniteMembers :
    (members : List (String × Value)) → Decidable (FiniteMembers members)
  | [] => .isTrue trivial
  | (_, v) :: rest => @instDecidableAnd _ _ (decidableFinite v) (decidableFiniteMembers rest)

end

instance (v : Value) : Decidable v.Finite := decidableFinite v

theorem finiteItems_iff {items : List Value} : FiniteItems items ↔ ∀ v ∈ items, v.Finite := by
  induction items with
  | nil => simp [FiniteItems]
  | cons v rest ih => simp [FiniteItems, ih]

theorem finiteMembers_iff {members : List (String × Value)} :
    FiniteMembers members ↔ ∀ m ∈ members, m.2.Finite := by
  induction members with
  | nil => simp [FiniteMembers]
  | cons m rest ih => simp [FiniteMembers, ih]

theorem Finite.member? {v w : Value} (hv : v.Finite) {key : String} (h : v.member? key = some w) :
    w.Finite := by
  cases v with
  | object members =>
      obtain ⟨m, hfound, rfl⟩ := Option.map_eq_some_iff.mp h
      exact finiteMembers_iff.mp hv m (List.mem_of_find?_eq_some hfound)
  | _ => cases h

/-! ## Where a text ends -/

/-- Nothing follows by which a text would go on. -/
def Closed (cs : List Char) : Prop :=
  ∀ c, cs.head? = some c → c = ',' ∨ c = ']' ∨ c = '\x7d'

/-- What follows the first item of a list. -/
def itemsTail : List Value → List Char
  | [] => [']']
  | v :: rest => ',' :: ((render v).toList ++ itemsTail rest)

/-- What follows the first member of an object. -/
def membersTail : List (String × Value) → List Char
  | [] => ['\x7d']
  | (k, v) :: rest => ',' :: ((escaped k).toList ++ ':' :: ((render v).toList ++ membersTail rest))

theorem intercalate_renderItems (v : Value) (rest : List Value) :
    [','].intercalate ((renderItems (v :: rest)).map String.toList) ++ [']'] =
      (render v).toList ++ itemsTail rest := by
  induction rest generalizing v with
  | nil => simp [renderItems, itemsTail]
  | cons w rest ih =>
      rw [itemsTail, ← ih w]
      simp [renderItems, List.intercalate]

theorem intercalate_renderMembers (k : String) (v : Value) (rest : List (String × Value)) :
    [','].intercalate ((renderMembers ((k, v) :: rest)).map String.toList) ++ ['\x7d'] =
      (escaped k).toList ++ ':' :: ((render v).toList ++ membersTail rest) := by
  induction rest generalizing k v with
  | nil => simp [renderMembers, membersTail]
  | cons m rest ih =>
      obtain ⟨l, w⟩ := m
      rw [membersTail, ← ih l w]
      simp [renderMembers, List.intercalate]

theorem toList_render_nil : (render (.list [])).toList = ['[', ']'] := rfl

theorem toList_render_object_nil : (render (.object [])).toList = ['\x7b', '\x7d'] := rfl

theorem toList_render_cons (v : Value) (rest : List Value) :
    (render (.list (v :: rest))).toList = '[' :: ((render v).toList ++ itemsTail rest) := by
  rw [← intercalate_renderItems, render]
  simp [String.toList_intercalate]

theorem toList_render_object_cons (k : String) (v : Value) (rest : List (String × Value)) :
    (render (.object ((k, v) :: rest))).toList =
      '\x7b' :: ((escaped k).toList ++ ':' :: ((render v).toList ++ membersTail rest)) := by
  rw [← intercalate_renderMembers, render]
  simp [String.toList_intercalate]

theorem closed_cons {c : Char} (h : c = ',' ∨ c = ']' ∨ c = '\x7d') (cs : List Char) :
    Closed (c :: cs) := by
  rintro d hd
  obtain rfl : c = d := Option.some.inj hd
  exact h

theorem closed_nil : Closed [] := by
  intro c hc
  cases hc

theorem closed_itemsTail (items : List Value) (s : List Char) : Closed (itemsTail items ++ s) := by
  cases items with
  | nil => exact closed_cons (.inr (.inl rfl)) _
  | cons v rest => exact closed_cons (.inl rfl) _

theorem closed_membersTail (members : List (String × Value)) (s : List Char) :
    Closed (membersTail members ++ s) := by
  cases members with
  | nil => exact closed_cons (.inr (.inr rfl)) _
  | cons m rest => exact closed_cons (.inl rfl) _

/-! ## How texts begin -/

/-- The kinds of values that begin differently. -/
inductive Kind where
  | null
  | true
  | false
  | number
  | text
  | list
  | object
  deriving DecidableEq

/-- The kind of a value. -/
def kind : Value → Kind
  | .null => .null
  | .bool b => if b then .true else .false
  | .int _ => .number
  | .float _ => .number
  | .text _ => .text
  | .list _ => .list
  | .object _ => .object

/-- The kind of value that begins with a character. None begins as a list or an object ends. -/
def kindOf? (c : Char) : Option Kind :=
  match c with
  | 'n' => some .null
  | 't' => some .true
  | 'f' => some .false
  | '"' => some .text
  | '[' => some .list
  | '\x7b' => some .object
  | ']' => none
  | '\x7d' => none
  | _ => some .number

theorem kindOf?_eq_number {c : Char} (h : IsNumeral c) : kindOf? c = some .number := by
  unfold kindOf?
  split
  all_goals first | rfl | (exact absurd h (by decide))

theorem exists_eq_cons_of_numeral {cs : List Char} (hsome : cs ≠ [])
    (h : ∀ c ∈ cs, IsNumeral c) : ∃ c rest, cs = c :: rest ∧ kindOf? c = some .number := by
  obtain ⟨c, rest, rfl⟩ := List.exists_cons_of_ne_nil hsome
  exact ⟨c, rest, rfl, kindOf?_eq_number (h c (by simp))⟩

/-- Values of different kinds begin differently. -/
theorem exists_render_eq_cons {v : Value} (hv : v.Finite) :
    ∃ c rest, (render v).toList = c :: rest ∧ kindOf? c = some v.kind := by
  cases v with
  | null => exact ⟨'n', _, rfl, rfl⟩
  | bool b =>
      cases b with
      | true => exact ⟨'t', _, rfl, rfl⟩
      | false => exact ⟨'f', _, rfl, rfl⟩
  | int n =>
      rw [render]
      exact exists_eq_cons_of_numeral (toString_int_ne_nil n)
        fun c hc => isNumeral_of_mem_toString_int hc
  | float x =>
      obtain ⟨b, hb⟩ := Option.isSome_iff_exists.mp hv
      rw [render]
      exact exists_eq_cons_of_numeral (floatText_ne_nil hb)
        fun c hc => isNumeral_of_mem_floatText hb hc
  | text s =>
      rw [render, toList_escaped]
      exact ⟨'"', _, rfl, rfl⟩
  | list items =>
      cases items with
      | nil => exact ⟨'[', _, rfl, rfl⟩
      | cons v rest => exact ⟨'[', _, toList_render_cons v rest, rfl⟩
  | object members =>
      cases members with
      | nil => exact ⟨'\x7b', _, rfl, rfl⟩
      | cons m rest => exact ⟨'\x7b', _, toList_render_object_cons m.1 m.2 rest, rfl⟩

/-- A value that is written begins with nothing by which a list or an object could end. -/
theorem render_ne_cons {v : Value} (hv : v.Finite) {c : Char} (hc : kindOf? c ≠ some v.kind)
    (s t : List Char) : (render v).toList ++ s ≠ c :: t := by
  obtain ⟨d, rest, hrender, hkind⟩ := exists_render_eq_cons hv
  intro h
  rw [hrender] at h
  obtain rfl := (List.cons.inj h).1
  exact hc hkind

theorem kind_eq_of_render {v w : Value} (hv : v.Finite) (hw : w.Finite) {s t : List Char}
    (h : (render v).toList ++ s = (render w).toList ++ t) : v.kind = w.kind := by
  obtain ⟨c, rest, hrender, hkind⟩ := exists_render_eq_cons hw
  by_contra hne
  rw [hrender] at h
  refine render_ne_cons hv (fun hsame => hne ?_) s _ h
  exact Option.some.inj (hsame.symm.trans hkind)

/-! ## Cancelling -/

theorem numeral_cancel {a b s t : List Char} (ha : ∀ c ∈ a, IsNumeral c)
    (hb : ∀ c ∈ b, IsNumeral c) (hs : Closed s) (ht : Closed t) (h : a ++ s = b ++ t) :
    a = b ∧ s = t := by
  have hends : ∀ {c : Char} {u : List Char}, IsNumeral c → ¬ Closed (c :: u) := by
    intro c u hc hclosed
    obtain rfl | rfl | rfl := hclosed c rfl
    · exact absurd hc (by decide)
    · exact absurd hc (by decide)
    · exact absurd hc (by decide)
  induction a generalizing b with
  | nil =>
      cases b with
      | nil => exact ⟨rfl, h⟩
      | cons d rest =>
          obtain rfl : s = d :: (rest ++ t) := h
          exact absurd hs (hends (hb d (by simp)))
  | cons c rest ih =>
      cases b with
      | nil =>
          obtain rfl : c :: (rest ++ s) = t := h
          exact absurd ht (hends (ha c (by simp)))
      | cons d others =>
          obtain ⟨rfl, hrest⟩ := List.cons.inj h
          obtain ⟨rfl, rfl⟩ := ih (fun x hx => ha x (by simp [hx]))
            (fun x hx => hb x (by simp [hx])) hrest
          exact ⟨rfl, rfl⟩

section Kinds

variable {v w : Value}

theorem eq_null_of_kind (h : v.kind = .null) : v = .null := by
  cases v with
  | bool b => cases b <;> cases h
  | null => rfl
  | _ => cases h

theorem eq_bool_of_kind {b : Bool} (h : v.kind = (Value.bool b).kind) : v = .bool b := by
  cases v with
  | bool c => cases b <;> cases c <;> first | rfl | cases h
  | _ => cases b <;> cases h

theorem eq_text_of_kind (h : v.kind = .text) : ∃ s, v = .text s := by
  cases v with
  | bool b => cases b <;> cases h
  | text s => exact ⟨s, rfl⟩
  | _ => cases h

theorem eq_list_of_kind (h : v.kind = .list) : ∃ items, v = .list items := by
  cases v with
  | bool b => cases b <;> cases h
  | list items => exact ⟨items, rfl⟩
  | _ => cases h

theorem eq_object_of_kind (h : v.kind = .object) : ∃ members, v = .object members := by
  cases v with
  | bool b => cases b <;> cases h
  | object members => exact ⟨members, rfl⟩
  | _ => cases h

theorem eq_number_of_kind (h : v.kind = .number) : (∃ n, v = .int n) ∨ ∃ x, v = .float x := by
  cases v with
  | bool b => cases b <;> cases h
  | int n => exact .inl ⟨n, rfl⟩
  | float x => exact .inr ⟨x, rfl⟩
  | _ => cases h

end Kinds

theorem isNumeral_of_mem_render {v : Value} (hv : v.Finite) (hkind : v.kind = .number) {c : Char}
    (hc : c ∈ (render v).toList) : IsNumeral c := by
  obtain ⟨n, rfl⟩ | ⟨x, rfl⟩ := eq_number_of_kind hkind
  · exact isNumeral_of_mem_toString_int (n := n) (by rwa [render] at hc)
  · obtain ⟨b, hb⟩ := Option.isSome_iff_exists.mp hv
    exact isNumeral_of_mem_floatText hb (by rwa [render] at hc)

/-- Numbers of the same text are the same number of the same kind. -/
theorem number_inj {v w : Value} (hv : v.Finite) (hw : w.Finite) (hkind : v.kind = .number)
    (hkind' : w.kind = .number) (h : render v = render w) : v = w := by
  obtain ⟨m, rfl⟩ | ⟨x, rfl⟩ := eq_number_of_kind hkind
  · obtain ⟨n, rfl⟩ | ⟨y, rfl⟩ := eq_number_of_kind hkind'
    · rw [render, render] at h
      rw [toString_int_inj h]
    · obtain ⟨b, hb⟩ := Option.isSome_iff_exists.mp hw
      rw [render, render] at h
      exact absurd h (toString_ne_floatText hb m)
  · obtain ⟨a, ha⟩ := Option.isSome_iff_exists.mp hv
    obtain ⟨n, rfl⟩ | ⟨y, rfl⟩ := eq_number_of_kind hkind'
    · rw [render, render] at h
      exact absurd h.symm (toString_ne_floatText ha n)
    · obtain ⟨b, hb⟩ := Option.isSome_iff_exists.mp hw
      rw [render, render] at h
      rw [floatText_inj ha hb h]

theorem number_cancel {v w : Value} (hv : v.Finite) (hw : w.Finite) (hkind : v.kind = .number)
    (hkind' : w.kind = .number) {s t : List Char} (hs : Closed s) (ht : Closed t)
    (h : (render v).toList ++ s = (render w).toList ++ t) : v = w ∧ s = t := by
  obtain ⟨htexts, hrest⟩ := numeral_cancel (fun c hc => isNumeral_of_mem_render hv hkind hc)
    (fun c hc => isNumeral_of_mem_render hw hkind' hc) hs ht h
  exact ⟨number_inj hv hw hkind hkind' (String.toList_inj.mp htexts), hrest⟩

/-- Lists that are written alike are so behind their brackets: with a comma in front, the first
items are items like all others. -/
theorem itemsTail_eq_of_render {items others : List Value} (hitems : FiniteItems items)
    (hothers : FiniteItems others) {s t : List Char}
    (h : (render (.list items)).toList ++ s = (render (.list others)).toList ++ t) :
    itemsTail items ++ s = itemsTail others ++ t := by
  have hopens : ∀ (w : Value) (rest : List Value) (u v : List Char), w.Finite →
      (render w).toList ++ itemsTail rest ++ u ≠ ']' :: v := by
    intro w rest u v hw
    rw [List.append_assoc]
    exact render_ne_cons hw (by rintro ⟨⟩) _ _
  cases items with
  | nil =>
      cases others with
      | nil => exact (List.cons.inj h).2
      | cons w others =>
          rw [toList_render_nil, toList_render_cons] at h
          exact absurd (List.cons.inj h).2.symm (hopens w others t s hothers.1)
  | cons v rest =>
      rw [toList_render_cons] at h
      cases others with
      | nil => exact absurd (List.cons.inj h).2 (hopens v rest s t hitems.1)
      | cons w others =>
          rw [toList_render_cons] at h
          exact congrArg (List.cons ',') (List.cons.inj h).2

/-- The same for objects. -/
theorem membersTail_eq_of_render {members others : List (String × Value)} {s t : List Char}
    (h : (render (.object members)).toList ++ s = (render (.object others)).toList ++ t) :
    membersTail members ++ s = membersTail others ++ t := by
  cases members with
  | nil =>
      cases others with
      | nil => exact (List.cons.inj h).2
      | cons m others =>
          rw [toList_render_object_nil, toList_render_object_cons, toList_escaped] at h
          cases (List.cons.inj (List.cons.inj h).2).1
  | cons m rest =>
      rw [toList_render_object_cons] at h
      cases others with
      | nil =>
          rw [toList_render_object_nil, toList_escaped] at h
          cases (List.cons.inj (List.cons.inj h).2).1
      | cons m' others =>
          rw [toList_render_object_cons] at h
          exact congrArg (List.cons ',') (List.cons.inj h).2

mutual

/-- Values whose texts go on alike are the same, and so is what follows them. -/
theorem render_cancel : (v : Value) → v.Finite → ∀ {w : Value} {s t : List Char}, w.Finite →
    Closed s → Closed t → (render v).toList ++ s = (render w).toList ++ t → v = w ∧ s = t
  | .null, hv, w, s, t, hw, hs, ht, h => by
      obtain rfl := eq_null_of_kind (kind_eq_of_render hv hw h).symm
      exact ⟨rfl, List.append_cancel_left h⟩
  | .bool b, hv, w, s, t, hw, hs, ht, h => by
      obtain rfl := eq_bool_of_kind (kind_eq_of_render hv hw h).symm
      exact ⟨rfl, List.append_cancel_left h⟩
  | .int n, hv, w, s, t, hw, hs, ht, h =>
      number_cancel hv hw rfl (kind_eq_of_render hv hw h).symm hs ht h
  | .float x, hv, w, s, t, hw, hs, ht, h =>
      number_cancel hv hw rfl (kind_eq_of_render hv hw h).symm hs ht h
  | .text u, hv, w, s, t, hw, hs, ht, h => by
      obtain ⟨u', rfl⟩ := eq_text_of_kind (kind_eq_of_render hv hw h).symm
      rw [render, render] at h
      obtain ⟨rfl, hrest⟩ := escaped_cancel h
      exact ⟨rfl, hrest⟩
  | .list items, hv, w, s, t, hw, hs, ht, h => by
      obtain ⟨others, rfl⟩ := eq_list_of_kind (kind_eq_of_render hv hw h).symm
      have htails := itemsTail_eq_of_render hv hw h
      obtain ⟨rfl, hrest⟩ := itemsTail_cancel items hv hw htails
      exact ⟨rfl, hrest⟩
  | .object members, hv, w, s, t, hw, hs, ht, h => by
      obtain ⟨others, rfl⟩ := eq_object_of_kind (kind_eq_of_render hv hw h).symm
      have htails := membersTail_eq_of_render h
      obtain ⟨rfl, hrest⟩ := membersTail_cancel members hv hw htails
      exact ⟨rfl, hrest⟩

theorem itemsTail_cancel : (items : List Value) → FiniteItems items →
    ∀ {others : List Value} {s t : List Char}, FiniteItems others →
      itemsTail items ++ s = itemsTail others ++ t → items = others ∧ s = t
  | [], _, others, s, t, _, h => by
      cases others with
      | nil => exact ⟨rfl, (List.cons.inj h).2⟩
      | cons w others => cases (List.cons.inj h).1
  | v :: rest, hitems, others, s, t, hothers, h => by
      cases others with
      | nil => cases (List.cons.inj h).1
      | cons w others =>
          rw [itemsTail, itemsTail, List.cons_append, List.cons_append, List.append_assoc,
            List.append_assoc] at h
          obtain ⟨rfl, hrest⟩ := render_cancel v hitems.1 hothers.1 (closed_itemsTail rest s)
            (closed_itemsTail others t) (List.cons.inj h).2
          obtain ⟨rfl, rfl⟩ := itemsTail_cancel rest hitems.2 hothers.2 hrest
          exact ⟨rfl, rfl⟩

theorem membersTail_cancel : (members : List (String × Value)) → FiniteMembers members →
    ∀ {others : List (String × Value)} {s t : List Char}, FiniteMembers others →
      membersTail members ++ s = membersTail others ++ t → members = others ∧ s = t
  | [], _, others, s, t, _, h => by
      cases others with
      | nil => exact ⟨rfl, (List.cons.inj h).2⟩
      | cons w others => cases (List.cons.inj h).1
  | (k, v) :: rest, hmembers, others, s, t, hothers, h => by
      cases others with
      | nil => cases (List.cons.inj h).1
      | cons m others =>
          obtain ⟨l, w⟩ := m
          rw [membersTail, membersTail, List.cons_append, List.cons_append, List.append_assoc,
            List.append_assoc] at h
          obtain ⟨rfl, hvalue⟩ := escaped_cancel (List.cons.inj h).2
          rw [List.cons_append, List.cons_append, List.append_assoc, List.append_assoc] at hvalue
          obtain ⟨rfl, hrest⟩ := render_cancel v hmembers.1 hothers.1 (closed_membersTail rest s)
            (closed_membersTail others t) (List.cons.inj hvalue).2
          obtain ⟨rfl, rfl⟩ := membersTail_cancel rest hmembers.2 hothers.2 hrest
          exact ⟨rfl, rfl⟩

end

/-- Values of the same text are the same value. -/
theorem render_inj {v w : Value} (hv : v.Finite) (hw : w.Finite) (h : render v = render w) :
    v = w :=
  (render_cancel v hv hw closed_nil closed_nil (by rw [h])).1

/-- Finite values are told apart by their texts, several values at a time. -/
theorem map_render_inj {vs ws : List Value} (hvs : ∀ v ∈ vs, v.Finite) (hws : ∀ v ∈ ws, v.Finite)
    (h : vs.map render = ws.map render) : vs = ws := by
  have hitems : ∀ items : List Value, renderItems items = items.map render := by
    intro items
    induction items with
    | nil => rfl
    | cons v rest ih => rw [renderItems, List.map_cons, ih]
  have hlists : render (.list vs) = render (.list ws) := by
    rw [render, render, hitems, hitems, h]
  exact list.inj (render_inj (finiteItems_iff.mpr hvs) (finiteItems_iff.mpr hws) hlists)

end RecordGraph.Value
