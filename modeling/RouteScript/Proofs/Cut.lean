import RouteScript.Token.Lexeme
import RouteScript.Text.Basic
import Mathlib.Data.List.Pairwise
/-!
# Texts cut into pieces

`Cut gap p ts q` says that the text between two spots consists of the pieces `ts`, in their order,
and of gaps between them. Scanning cuts a whole text into its tokens.
-/
namespace RouteScript

/-- A spot in a text: the bytes before it and the characters behind it. -/
structure Spot where
  offset : Nat
  rest : List Char

/-- A spot that lies in this text. -/
def Spot.In (source : List Char) (p : Spot) : Prop :=
  ∃ before, source = before ++ p.rest ∧ p.offset = Text.size before

/-- The pieces between two spots, each a token with its text; what is left out are gaps. -/
inductive Cut (gap : Char → Bool) : Spot → List Token → Spot → Prop
  | done (p : Spot) : Cut gap p [] p
  | skip {c : Char} {offset : Nat} {rest : List Char} {ts : List Token} {q : Spot}
      (isGap : gap c) (tail : Cut gap ⟨offset + c.utf8Size, rest⟩ ts q) :
      Cut gap ⟨offset, c :: rest⟩ ts q
  | piece {t : Token} {rest : List Char} {ts : List Token} {q : Spot} (nonempty : t.text ≠ [])
      (tail : Cut gap ⟨t.stop, rest⟩ ts q) : Cut gap ⟨t.start, t.text ++ rest⟩ (t :: ts) q

theorem Text.size_pos {text : List Char} (h : text ≠ []) : 0 < size text := by
  cases text with
  | nil => contradiction
  | cons c rest =>
    have := c.utf8Size_pos
    simp only [size_cons]
    omega

theorem Text.slice?_append (before inner after : List Char) :
    slice? (before ++ inner ++ after) (size before) (size before + size inner) = some inner := by
  have upTo : ∀ inner : List Char, upTo? (inner ++ after) (size inner) = some inner := by
    intro inner
    induction inner with
    | nil => cases after <;> rfl
    | cons c rest ih =>
      have pos := c.utf8Size_pos
      obtain ⟨n, hn⟩ : ∃ n, size (c :: rest) = n + 1 := ⟨size (c :: rest) - 1, by simp; omega⟩
      have left : n + 1 - c.utf8Size = size rest := by rw [← hn]; simp
      have fits : c.utf8Size ≤ n + 1 := by rw [← hn]; simp
      rw [hn, List.cons_append, upTo?, if_pos fits, left, ih]
      rfl
  rw [slice?, if_neg (by omega), List.append_assoc, after?_size_append, Option.bind_some,
    Nat.add_sub_cancel_left, upTo]

theorem Text.after?_split {text rest : List Char} {n : Nat} (h : after? text n = some rest) :
    ∃ before, text = before ++ rest ∧ size before = n := by
  induction text generalizing n with
  | nil =>
    cases n with
    | zero => exact ⟨[], by simpa using h, rfl⟩
    | succ n => contradiction
  | cons c text ih =>
    cases n with
    | zero => exact ⟨[], by simpa using h, rfl⟩
    | succ n =>
      rw [after?] at h
      split at h
      · rename_i fits
        obtain ⟨before, rfl, size_eq⟩ := ih h
        exact ⟨c :: before, rfl, by rw [size_cons, size_eq]; omega⟩
      · contradiction

theorem Text.upTo?_split {text inner : List Char} {n : Nat} (h : upTo? text n = some inner) :
    ∃ rest, text = inner ++ rest ∧ size inner = n := by
  induction text generalizing n inner with
  | nil =>
    cases n with
    | zero =>
      cases h
      exact ⟨[], rfl, rfl⟩
    | succ n => contradiction
  | cons c text ih =>
    cases n with
    | zero =>
      cases h
      exact ⟨c :: text, rfl, rfl⟩
    | succ n =>
      rw [upTo?] at h
      split at h
      · rename_i fits
        obtain ⟨inner', taken, rfl⟩ := Option.map_eq_some_iff.1 h
        obtain ⟨rest, rfl, size_eq⟩ := ih taken
        exact ⟨rest, rfl, by rw [size_cons, size_eq]; omega⟩
      · contradiction

/-- A slice parts a text in three. -/
theorem Text.slice?_split {text inner : List Char} {m n : Nat}
    (h : slice? text m n = some inner) :
    ∃ before after, text = before ++ inner ++ after ∧ size before = m ∧ n = m + size inner := by
  unfold slice? at h
  split at h
  · contradiction
  · obtain ⟨rest, behind, taken⟩ := Option.bind_eq_some_iff.1 h
    obtain ⟨before, rfl, rfl⟩ := after?_split behind
    obtain ⟨after, rfl, size_eq⟩ := upTo?_split taken
    exact ⟨before, after, by simp, rfl, by omega⟩

/-- Two slices side by side are one. -/
theorem Text.slice?_join {text first second : List Char} {x y z : Nat}
    (h : slice? text x y = some first) (h' : slice? text y z = some second) :
    slice? text x z = some (first ++ second) := by
  obtain ⟨before, rest, eq, rfl, rfl⟩ := slice?_split h
  obtain ⟨before', after, eq', size_eq, rfl⟩ := slice?_split h'
  have here : after? text (size before + size first) = some rest := by
    rw [eq, ← size_append, after?_size_append]
  have there : after? text (size before + size first) = some (second ++ after) := by
    rw [eq', List.append_assoc, ← size_eq, after?_size_append]
  obtain rfl : rest = second ++ after := by simpa [here] using there
  have whole := slice?_append before (first ++ second) after
  rw [eq, Nat.add_assoc, ← size_append]
  simpa using whole

theorem Token.start_lt_stop {t : Token} (h : t.text ≠ []) : t.start < t.stop := by
  have := Text.size_pos h
  unfold stop
  omega

namespace Spot

theorem in_start (source : List Char) : Spot.In source ⟨0, source⟩ := ⟨[], rfl, rfl⟩

theorem In.skip {source rest : List Char} {offset : Nat} (inner : List Char)
    (h : Spot.In source ⟨offset, inner ++ rest⟩) :
    Spot.In source ⟨offset + Text.size inner, rest⟩ := by
  obtain ⟨before, rfl, rfl⟩ := h
  exact ⟨before ++ inner, by simp, by simp⟩

theorem In.after? {source : List Char} {p : Spot} (h : p.In source) :
    Text.after? source p.offset = some p.rest := by
  obtain ⟨before, rfl, eq⟩ := h
  rw [eq, Text.after?_size_append]

theorem In.slice? {source inner rest : List Char} {offset : Nat}
    (h : Spot.In source ⟨offset, inner ++ rest⟩) :
    Text.slice? source offset (offset + Text.size inner) = some inner := by
  obtain ⟨before, rfl, rfl⟩ := h
  rw [← List.append_assoc, Text.slice?_append]

theorem In.size {source : List Char} {p : Spot} (h : p.In source) :
    p.offset + Text.size p.rest = Text.size source := by
  obtain ⟨before, rfl, eq⟩ := h
  simp [eq]

end Spot

namespace Cut

variable {gap gap' : Char → Bool} {p q r : Spot} {ts us : List Token} {source : List Char}

theorem mono (h : Cut gap p ts q) (imp : ∀ c, gap c → gap' c) : Cut gap' p ts q := by
  induction h with
  | done p => exact .done p
  | skip isGap _ ih => exact .skip (imp _ isGap) ih
  | piece nonempty _ ih => exact .piece nonempty ih

theorem append (h : Cut gap p ts q) (h' : Cut gap q us r) : Cut gap p (ts ++ us) r := by
  induction h with
  | done _ => exact h'
  | skip isGap _ ih => exact .skip isGap (ih h')
  | piece nonempty _ ih => exact .piece nonempty (ih h')

theorem gaps {blank : List Char} (h : ∀ c ∈ blank, gap c) {offset : Nat} {rest : List Char}
    (tail : Cut gap ⟨offset + Text.size blank, rest⟩ ts q) :
    Cut gap ⟨offset, blank ++ rest⟩ ts q := by
  induction blank generalizing offset with
  | nil => exact tail
  | cons c cs ih =>
    refine .skip (h c (by simp)) (ih (fun d hd => h d (by simp [hd])) ?_)
    simpa [Nat.add_assoc] using tail

theorem split (h : Cut gap p (ts ++ us) r) : ∃ q, Cut gap p ts q ∧ Cut gap q us r := by
  generalize eq : ts ++ us = all at h
  induction h generalizing ts with
  | done p =>
    obtain ⟨rfl, rfl⟩ := List.append_eq_nil_iff.1 eq
    exact ⟨p, .done p, .done p⟩
  | skip isGap _ ih =>
    obtain ⟨q, left, right⟩ := ih eq
    exact ⟨q, .skip isGap left, right⟩
  | @piece t rest all r nonempty tail ih =>
    cases ts with
    | nil =>
      subst eq
      exact ⟨_, .done _, .piece nonempty tail⟩
    | cons t' ts =>
      obtain ⟨rfl, tail_eq⟩ := List.cons.inj eq
      obtain ⟨q, left, right⟩ := ih tail_eq
      exact ⟨q, .piece nonempty left, right⟩

theorem place (h : Cut gap p ts q) (hp : p.In source) : q.In source := by
  induction h with
  | done p => exact hp
  | @skip c _ _ _ _ _ _ ih => exact ih (hp.skip [c])
  | piece _ _ ih => exact ih (hp.skip _)

theorem offset_le (h : Cut gap p ts q) : p.offset ≤ q.offset := by
  induction h with
  | done _ => exact Nat.le_refl _
  | skip _ _ ih => exact Nat.le_trans (Nat.le_add_right _ _) ih
  | piece _ _ ih => exact Nat.le_trans (Nat.le_add_right _ _) ih

theorem bounds (h : Cut gap p ts q) :
    ∀ t ∈ ts, p.offset ≤ t.start ∧ t.start < t.stop ∧ t.stop ≤ q.offset := by
  induction h with
  | done _ => simp
  | skip _ _ ih =>
    intro t ht
    obtain ⟨low, rest⟩ := ih t ht
    exact ⟨Nat.le_trans (Nat.le_add_right _ _) low, rest⟩
  | @piece t rest ts q nonempty tail ih =>
    intro u hu
    rcases List.mem_cons.1 hu with rfl | hu
    · exact ⟨Nat.le_refl _, Token.start_lt_stop nonempty, tail.offset_le⟩
    · obtain ⟨low, mid, high⟩ := ih u hu
      exact ⟨Nat.le_trans (Nat.le_of_lt (Token.start_lt_stop nonempty)) low, mid, high⟩

theorem nonempty (h : Cut gap p ts q) : ∀ t ∈ ts, t.text ≠ [] := by
  induction h with
  | done _ => simp
  | skip _ _ ih => exact ih
  | piece nonempty _ ih => exact List.forall_mem_cons.2 ⟨nonempty, ih⟩

theorem pairwise (h : Cut gap p ts q) : ts.Pairwise fun t u => t.stop ≤ u.start := by
  induction h with
  | done _ => exact .nil
  | skip _ _ ih => exact ih
  | piece _ tail ih => exact .cons (fun u hu => (tail.bounds u hu).1) ih

theorem disjoint (h : Cut gap p ts q) {t u : Token} (ht : t ∈ ts) (hu : u ∈ ts) (other : t ≠ u) :
    t.stop ≤ u.start ∨ u.stop ≤ t.start := by
  let Apart (t u : Token) : Prop := t.stop ≤ u.start ∨ u.stop ≤ t.start
  have symm : Std.Symm Apart := ⟨fun _ _ apart => apart.symm⟩
  have apart : ts.Pairwise Apart := h.pairwise.imp fun before => .inl before
  exact apart.forall ht hu other

theorem slice? (h : Cut gap p ts q) (hp : p.In source) :
    ∀ t ∈ ts, Text.slice? source t.start t.stop = some t.text := by
  induction h with
  | done _ => simp
  | @skip c _ _ _ _ _ _ ih => exact ih (hp.skip [c])
  | piece _ _ ih =>
    intro u hu
    rcases List.mem_cons.1 hu with rfl | hu
    · exact hp.slice?
    · exact ih (hp.skip _) u hu

/-- A spot before some pieces may be moved to the start of the first. -/
theorem start_eq (h : Cut gap p ts q) {t : Token} (ht : ts.head? = some t) :
    ∃ p' : Spot, p'.offset = t.start ∧ Cut gap p [] p' ∧ Cut gap p' ts q := by
  induction h with
  | done _ => simp at ht
  | skip isGap _ ih =>
    obtain ⟨p', start, left, right⟩ := ih ht
    exact ⟨p', start, .skip isGap left, right⟩
  | piece nonempty tail _ =>
    cases ht
    exact ⟨_, rfl, .done _, .piece nonempty tail⟩

/-- A cut from the very start of its first piece on. -/
theorem head_eq {t : Token} (h : Cut gap p (t :: ts) q) (start : p.offset = t.start) :
    ∃ rest, p.rest = t.text ++ rest ∧ Cut gap ⟨t.stop, rest⟩ ts q := by
  cases h with
  | @skip c offset rest _ _ isGap tail =>
    have low := (tail.bounds t (by simp)).1
    have pos := c.utf8Size_pos
    simp only at low start
    omega
  | piece nonempty tail => exact ⟨_, rfl, tail⟩

/-- Behind the last piece there are only gaps. -/
theorem behind_last {t : Token} (h : Cut gap p ts q) (hp : p.In source)
    (last : ts.getLast? = some t) :
    ∃ blank : List Char, (∀ c ∈ blank, gap c) ∧ Spot.In source ⟨t.stop, blank ++ q.rest⟩ := by
  have gaps {p q : Spot} (h : Cut gap p [] q) :
      ∃ blank : List Char, (∀ c ∈ blank, gap c) ∧ p.rest = blank ++ q.rest := by
    generalize none : ([] : List Token) = ts at h
    induction h with
    | done p => exact ⟨[], by simp, rfl⟩
    | @skip c _ rest _ _ isGap _ ih =>
      obtain ⟨blank, all, eq⟩ := ih none
      exact ⟨c :: blank, by simpa [isGap] using all, congrArg (c :: ·) eq⟩
    | piece => contradiction
  obtain ⟨front, rfl⟩ := List.getLast?_eq_some_iff.1 last
  obtain ⟨m, left, right⟩ := h.split
  obtain ⟨m', start, lead, right⟩ := right.start_eq rfl
  obtain ⟨rest, text, tail⟩ := right.head_eq start
  obtain ⟨blank, all, eq⟩ := gaps tail
  have there := lead.place (left.place hp)
  obtain ⟨offset, chars⟩ := m'
  simp only at start text eq
  rw [start, text] at there
  exact ⟨blank, all, eq ▸ there.skip _⟩

/-- Two pieces without a gap between them are one piece. -/
theorem join {t u v : Token} (h : Cut gap p (t :: u :: ts) q) (adjacent : t.stop = u.start)
    (start : v.start = t.start) (text : v.text = t.text ++ u.text) : Cut gap p (v :: ts) q := by
  obtain ⟨p', from_start, lead, h⟩ := h.start_eq rfl
  have nonempty : t.text ≠ [] := h.nonempty t (by simp)
  obtain ⟨rest, eq, tail⟩ := h.head_eq from_start
  obtain ⟨rest', eq', tail⟩ := tail.head_eq adjacent
  have stop : v.stop = u.stop := by
    rw [Token.stop, start, text, Text.size_append, ← Nat.add_assoc]
    exact congrArg (· + Text.size u.text) adjacent
  have whole : p' = ⟨v.start, v.text ++ rest'⟩ := by
    obtain ⟨offset, chars⟩ := p'
    simp only at from_start eq eq'
    subst from_start eq eq'
    rw [start, text, List.append_assoc]
  rw [whole] at lead
  exact lead.append (.piece (by simp [text, nonempty]) (by rw [stop]; exact tail))

/-- Whether a stretch covers the character at this offset. -/
def covers (offset : Nat) (c : Char) (stretch : Nat × Nat) : Bool :=
  stretch.1 ≤ offset && offset + c.utf8Size ≤ stretch.2

/-- A character that is no gap lies in exactly one piece. -/
theorem countP_covers {offset : Nat} {before after : List Char} {c : Char}
    (h : Cut gap ⟨offset, before ++ c :: after⟩ ts q) (noGap : ¬ gap c)
    (reach : offset + Text.size before + c.utf8Size ≤ q.offset) :
    ts.countP (fun t => covers (offset + Text.size before) c (t.start, t.stop)) = 1 := by
  generalize here : Spot.mk offset (before ++ c :: after) = p at h
  induction h generalizing offset before with
  | done p =>
    have pos := c.utf8Size_pos
    subst here
    simp only at reach
    omega
  | @skip d _ rest _ _ isGap tail ih =>
    obtain ⟨rfl, chars⟩ := Spot.mk.inj here
    cases before with
    | nil =>
      obtain ⟨rfl, -⟩ := List.cons.inj chars
      exact absurd isGap noGap
    | cons b before =>
      obtain ⟨rfl, rfl⟩ := List.cons.inj chars
      simp only [Text.size_cons, ← Nat.add_assoc] at reach ⊢
      exact ih reach rfl
  | @piece t rest ts q nonempty tail ih =>
    obtain ⟨rfl, chars⟩ := Spot.mk.inj here
    have pos := c.utf8Size_pos
    -- a piece before the character, which lies in the rest
    have before_it (front : List Char) (eq : before = t.text ++ front)
        (eq' : rest = front ++ c :: after) :
        (t :: ts).countP (fun u => covers (t.start + Text.size before) c (u.start, u.stop))
          = 1 := by
      subst eq eq'
      have missed : covers (t.start + Text.size (t.text ++ front)) c (t.start, t.stop) = false := by
        simp only [covers, Token.stop, Text.size_append, Bool.and_eq_false_iff,
          decide_eq_false_iff_not]
        omega
      rw [List.countP_cons_of_neg (by rw [missed]; decide)]
      simp only [Token.stop, Text.size_append, ← Nat.add_assoc] at ih reach ⊢
      exact ih reach rfl
    rcases List.append_eq_append_iff.1 chars with ⟨inner, text, rest_eq⟩ | ⟨front, eq, eq'⟩
    · cases inner with
      | nil => exact before_it [] (by simpa using text.symm) rest_eq.symm
      | cons d inner =>
        obtain ⟨rfl, -⟩ := List.cons.inj rest_eq
        have stop : t.stop = t.start + Text.size before + c.utf8Size + Text.size inner := by
          simp [Token.stop, text, Nat.add_assoc]
        have others : ts.countP
            (fun u => covers (t.start + Text.size before) c (u.start, u.stop)) = 0 := by
          refine List.countP_eq_zero.2 fun u hu => ?_
          have behind := (tail.bounds u hu).1
          simp only [covers, Bool.and_eq_true, decide_eq_true_eq] at behind ⊢
          omega
        rw [List.countP_cons_of_pos (by simp [covers, stop]), others]
    · exact before_it front eq eq'

end Cut

end RouteScript
