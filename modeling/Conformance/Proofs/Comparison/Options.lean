import Mathlib
import Conformance.Proofs.Comparison.Tokens
import Conformance.Proofs.Returns

namespace Conformance.Comparison

/-- What settings are about. Settings of one group replace each other. -/
inductive Group where
  | judgement
  | minimum
  | maximum
  | flush
deriving DecidableEq

def ValueOption.group : ValueOption → Group
  | judge _ => .judgement
  | minimum => .minimum
  | maximum => .maximum

def Group.ofToken? (token : List Char) : Option Group :=
  let name := token.takeWhile fun c => decide (c ≠ '=')
  if name = "flushDenorms".toList then some .flush
  else if name = "legacy_default".toList then some .judgement
  else (ValueOption.ofName? name).map ValueOption.group

namespace Setting

variable {token value : List Char} {s : Setting} {settings : List Setting} {g : Group}

def group : Setting → Group
  | flush => .flush
  | legacy | judge _ _ => .judgement
  | minimum _ => .minimum
  | maximum _ => .maximum

def ofNumber : ValueOption → Double → Setting
  | .judge m, x => judge m x
  | .minimum, x => minimum x
  | .maximum, x => maximum x

theorem group_of_sets (h : Sets token s) : Group.ofToken? token = some s.group := by
  have hnamed (o : ValueOption) (value : List Char) :
      Group.ofToken? (o.name.toList ++ '=' :: value) = some o.group := by
    rw [Group.ofToken?, (span_named o value).1, ofName?_eq_some_iff.mpr rfl]
    rcases o with m | _ | _
    · cases m <;> rfl
    all_goals rfl
  cases h with
  | flush => rfl
  | legacy => rfl
  | judge => exact hnamed _ _
  | minimum => exact hnamed .minimum _
  | maximum => exact hnamed .maximum _

theorem of_sets_named {o : ValueOption} (h : Sets (o.name.toList ++ '=' :: value) s) :
    ∃ x, Binary.ofChars? .double value = some x ∧ s = ofNumber o x := by
  have hok := ofToken_of_sets h
  rw [ofToken_named, ofValue] at hok
  cases hv : Binary.ofChars? .double value with
  | none =>
    rw [hv] at hok
    cases hok
  | some x =>
    rw [hv] at hok
    refine ⟨x, rfl, ?_⟩
    cases o with
    | judge m =>
      dsimp only at hok
      split_ifs at hok
      exact (Except.ok.inj hok).symm
    | minimum => exact (Except.ok.inj hok).symm
    | maximum => exact (Except.ok.inj hok).symm

/-- A part of the options that the settings of one group decide on, each of them alone. -/
structure Decides {α : Type} (g : Group) (part : Options → α) : Prop where
  other : ∀ (s : Setting) (o : Options), s.group ≠ g → part (s.apply o) = part o
  same : ∀ (s : Setting) (o p : Options), s.group = g → part (s.apply o) = part (s.apply p)

def last (g : Group) (settings : List Setting) : Option Setting :=
  (settings.filter fun s => decide (s.group = g)).getLast?

/-- The last setting of the group decides. -/
theorem Decides.foldl {α : Type} {part : Options → α} (h : Decides g part) (settings : List Setting)
    (o : Options) :
    part (settings.foldl apply o) = (last g settings).elim (part o) fun s => part (s.apply {}) := by
  induction settings using List.reverseRecOn with
  | nil => rfl
  | append_singleton rest s ih =>
    rw [List.foldl_append, last, List.filter_append]
    by_cases hs : s.group = g
    · simp [hs, h.same s _ {} hs]
    · simp only [List.foldl_cons, List.foldl_nil, h.other s _ hs, ih, last]
      simp [hs]

theorem decides_judgement : Decides .judgement fun o => (o.method, o.precision) where
  other s o hs := by cases s <;> first | rfl | exact absurd rfl hs
  same s o p hs := by cases s <;> first | rfl | cases hs

theorem decides_minimum : Decides .minimum Options.minimum where
  other s o hs := by cases s <;> first | rfl | exact absurd rfl hs
  same s o p hs := by cases s <;> first | rfl | cases hs

theorem decides_maximum : Decides .maximum Options.maximum where
  other s o hs := by cases s <;> first | rfl | exact absurd rfl hs
  same s o p hs := by cases s <;> first | rfl | cases hs

theorem decides_flush : Decides .flush Options.flush where
  other s o hs := by cases s <;> first | rfl | exact absurd rfl hs
  same s o p hs := by cases s <;> first | rfl | cases hs

end Setting

namespace Options

open Setting

variable {text other : String} {o : Options} {ts us : List (List Char)} {settings : List Setting}

def lastOf (g : Group) (ts : List (List Char)) : Option (List Char) :=
  (ts.filter fun t => decide (Group.ofToken? t = some g)).getLast?

theorem forall₂_getLast? {α β : Type} {r : α → β → Prop} {l : List α} {m : List β}
    (h : List.Forall₂ r l m) : Option.Rel r l.getLast? m.getLast? := by
  have hr := List.forall₂_reverse_iff.mpr h
  rw [List.getLast?_eq_head?_reverse, List.getLast?_eq_head?_reverse]
  generalize l.reverse = front at hr
  generalize m.reverse = back at hr
  cases hr with
  | nil => exact .none
  | cons hlast _ => exact .some hlast

theorem forall₂_filter (h : List.Forall₂ Sets ts settings) (g : Group) :
    List.Forall₂ Sets (ts.filter fun t => decide (Group.ofToken? t = some g))
      (settings.filter fun s => decide (s.group = g)) := by
  induction h with
  | nil => exact .nil
  | @cons t s ts settings hs _ ih =>
    have hg := group_of_sets hs
    by_cases he : s.group = g
    · rw [List.filter_cons_of_pos (by simp [hg, he]), List.filter_cons_of_pos (by simp [he])]
      exact .cons hs ih
    · rw [List.filter_cons_of_neg (by simp [hg, he]), List.filter_cons_of_neg (by simp [he])]
      exact ih

theorem of_lastOf {g : Group} {t : List Char} (h : lastOf g ts = some t) :
    t ∈ ts ∧ Group.ofToken? t = some g := by
  have hm := List.mem_of_getLast? h
  simpa using hm

theorem lastOf_isSome {g : Group} {t : List Char} (ht : t ∈ ts) (hg : Group.ofToken? t = some g) :
    ∃ u, lastOf g ts = some u := by
  rw [← Option.isSome_iff_exists, lastOf, List.getLast?_isSome]
  exact List.ne_nil_of_mem (List.mem_filter.mpr ⟨ht, by simpa using hg⟩)

theorem last_of_tokens (h : List.Forall₂ Sets ts settings) (g : Group) :
    Option.Rel Sets (lastOf g ts) (last g settings) :=
  forall₂_getLast? (forall₂_filter h g)

theorem settings_eq_ok_iff {cs : List Char} :
    Options.settings cs = .ok settings ↔ List.Forall₂ Sets (tokens cs) settings := by
  rw [Options.settings, mapM_eq_ok_iff]
  simp only [ofToken_eq_ok_iff]

theorem parse_eq_ok_iff :
    parse text = .ok o ↔
      ∃ settings, List.Forall₂ Sets (tokens text.toList) settings ∧
        o = settings.foldl apply {} := by
  constructor
  · intro h
    obtain ⟨settings, hs, ho⟩ := exists_of_bind h
    exact ⟨settings, settings_eq_ok_iff.mp hs, (Except.ok.inj ho).symm⟩
  · rintro ⟨settings, hs, rfl⟩
    rw [parse, ofChars, settings_eq_ok_iff.mpr hs]
    rfl

theorem parse_eq_error_iff {e : OptionError} :
    parse text = .error e ↔ ∃ before t after, tokens text.toList = before ++ t :: after ∧
      (∀ u ∈ before, ∃ s, Sets u s) ∧ Offends t e := by
  have hsettings : parse text = .error e ↔ Options.settings text.toList = .error e := by
    rw [parse, ofChars]
    cases Options.settings text.toList <;> simp [bind, Except.bind, pure, Except.pure]
  rw [hsettings, Options.settings, mapM_eq_error_iff]
  simp only [ofToken_eq_ok_iff, ofToken_eq_error_iff]

theorem parse_returns_iff :
    (∃ o, parse text = .ok o) ↔ ∀ t ∈ tokens text.toList, ∃ s, Sets t s := by
  constructor
  · rintro ⟨o, ho⟩
    obtain ⟨settings, hs, -⟩ := parse_eq_ok_iff.mp ho
    exact ((List.forall₂_and_left _ _).mp (hs.imp fun _ s h => ⟨⟨s, h⟩, h⟩)).1
  · intro h
    cases hp : parse text with
    | ok o => exact ⟨o, rfl⟩
    | error e =>
      obtain ⟨before, t, after, ht, -, hoffends⟩ := parse_eq_error_iff.mp hp
      obtain ⟨s, hs⟩ := h t (by simp [ht])
      have hok := ofToken_of_sets hs
      rw [ofToken_of_offends hoffends] at hok
      cases hok

/-- The last token of a group decides on its part of the options. -/
theorem part_of_parse {α : Type} {g : Group} {part : Options → α} (hp : Decides g part)
    (h : parse text = .ok o) :
    (lastOf g (tokens text.toList) = none → part o = part {}) ∧
      ∀ t, lastOf g (tokens text.toList) = some t → ∃ s, Sets t s ∧ part o = part (s.apply {}) := by
  obtain ⟨settings, hs, rfl⟩ := parse_eq_ok_iff.mp h
  have hlast := last_of_tokens hs g
  rw [hp.foldl]
  constructor
  · intro hn
    rw [hn] at hlast
    cases hl : last g settings with
    | none => rfl
    | some s =>
      rw [hl] at hlast
      cases hlast
  · intro t ht
    rw [ht] at hlast
    cases hl : last g settings with
    | none =>
      rw [hl] at hlast
      cases hlast
    | some s =>
      rw [hl] at hlast
      cases hlast with
      | some hsets => exact ⟨s, hsets, rfl⟩

theorem part_of_named {α : Type} {part : Options → α} {v : ValueOption} (hp : Decides v.group part)
    (h : parse text = .ok o) {value : List Char}
    (ht : lastOf v.group (tokens text.toList) = some (v.name.toList ++ '=' :: value)) :
    ∃ x, Binary.ofChars? .double value = some x ∧ part o = part ((ofNumber v x).apply {}) := by
  obtain ⟨s, hs, hpart⟩ := (part_of_parse hp h).2 _ ht
  obtain ⟨x, hx, rfl⟩ := of_sets_named hs
  exact ⟨x, hx, hpart⟩

/-- Options as tokens set them: the last token of a group decides alone, and what no token is about
keeps its default. -/
structure Reflects (ts : List (List Char)) (o : Options) : Prop where
  default : lastOf .judgement ts = none → o.method = .ulps ∧ o.precision = none
  legacy : lastOf .judgement ts = some "legacy_default".toList →
    o.method = .decimal ∧ o.precision = none
  judge : ∀ m value,
    lastOf .judgement ts = some ((ValueOption.judge m).name.toList ++ '=' :: value) →
      o.method = m ∧ ∃ x, Binary.ofChars? .double value = some x ∧ o.precision = some x
  unboundedBelow : lastOf .minimum ts = none → o.minimum = none
  minimum : ∀ value, lastOf .minimum ts = some ("minf".toList ++ '=' :: value) →
    ∃ x, Binary.ofChars? .double value = some x ∧ o.minimum = some x
  unboundedAbove : lastOf .maximum ts = none → o.maximum = none
  maximum : ∀ value, lastOf .maximum ts = some ("maxf".toList ++ '=' :: value) →
    ∃ x, Binary.ofChars? .double value = some x ∧ o.maximum = some x
  flush : o.flush ↔ "flushDenorms".toList ∈ ts

theorem reflects_of_parse (h : parse text = .ok o) : Reflects (tokens text.toList) o where
  default hn := Prod.mk.inj ((part_of_parse decides_judgement h).1 hn)
  legacy ht := by
    obtain ⟨s, hs, hpart⟩ := (part_of_parse decides_judgement h).2 _ ht
    obtain rfl : s = .legacy := Except.ok.inj (ofToken_of_sets hs).symm
    exact Prod.mk.inj hpart
  judge m value ht := by
    obtain ⟨x, hx, hpart⟩ := part_of_named (v := .judge m) decides_judgement h ht
    obtain ⟨hmethod, hprecision⟩ := Prod.mk.inj hpart
    exact ⟨hmethod, x, hx, hprecision⟩
  unboundedBelow hn := (part_of_parse decides_minimum h).1 hn
  minimum value ht := part_of_named (v := .minimum) decides_minimum h ht
  unboundedAbove hn := (part_of_parse decides_maximum h).1 hn
  maximum value ht := part_of_named (v := .maximum) decides_maximum h ht
  flush := by
    have hflush {t : List Char} (hg : Group.ofToken? t = some .flush) {s : Setting}
        (hs : Sets t s) : s = .flush ∧ t = "flushDenorms".toList := by
      have hgroup := (group_of_sets hs).symm.trans hg
      cases hs <;> first | exact ⟨rfl, rfl⟩ | cases hgroup
    constructor
    · intro hf
      cases hl : lastOf .flush (tokens text.toList) with
      | none => cases ((part_of_parse decides_flush h).1 hl).symm.trans hf
      | some t =>
        obtain ⟨ht, hg⟩ := of_lastOf hl
        obtain ⟨s, hs, -⟩ := (part_of_parse decides_flush h).2 t hl
        exact (hflush hg hs).2 ▸ ht
    · intro ht
      obtain ⟨u, hu⟩ := lastOf_isSome (g := .flush) ht rfl
      obtain ⟨s, hs, hpart⟩ := (part_of_parse decides_flush h).2 u hu
      rw [hpart, (hflush (of_lastOf hu).2 hs).1]
      rfl

theorem part_congr {α : Type} {g : Group} {part : Options → α} {p : Options} (hp : Decides g part)
    (h : parse text = .ok o) (ho : parse other = .ok p)
    (hl : lastOf g (tokens other.toList) = lastOf g (tokens text.toList)) : part p = part o := by
  cases ht : lastOf g (tokens text.toList) with
  | none => rw [(part_of_parse hp h).1 ht, (part_of_parse hp ho).1 (hl.trans ht)]
  | some t =>
    obtain ⟨s, hs, hpart⟩ := (part_of_parse hp h).2 t ht
    obtain ⟨u, hu, hother⟩ := (part_of_parse hp ho).2 t (hl.trans ht)
    obtain rfl : s = u := Except.ok.inj ((ofToken_of_sets hs).symm.trans (ofToken_of_sets hu))
    rw [hpart, hother]

theorem parse_reordered (h : parse text = .ok o)
    (hg : ∀ g, (tokens other.toList).filter (fun t => decide (Group.ofToken? t = g)) =
      (tokens text.toList).filter fun t => decide (Group.ofToken? t = g)) :
    parse other = .ok o := by
  have hlast (g : Group) : lastOf g (tokens other.toList) = lastOf g (tokens text.toList) := by
    rw [lastOf, hg, lastOf]
  have hall : ∀ t ∈ tokens other.toList, ∃ s, Sets t s := by
    intro t ht
    have hm : t ∈ (tokens other.toList).filter
        fun u => decide (Group.ofToken? u = Group.ofToken? t) := by simpa using ht
    rw [hg] at hm
    exact parse_returns_iff.mp ⟨o, h⟩ t (List.mem_of_mem_filter hm)
  obtain ⟨p, hp⟩ := parse_returns_iff.mpr hall
  have hjudgement := part_congr decides_judgement h hp (hlast _)
  have hminimum := part_congr decides_minimum h hp (hlast _)
  have hmaximum := part_congr decides_maximum h hp (hlast _)
  have hflush := part_congr decides_flush h hp (hlast _)
  have hsame : p = o := by
    cases p
    cases o
    simp_all
  rw [hp, hsame]

/-- Written options are determined by their tokens, the longest runs without separators. They are
read if every token is, the last token of a group decides on what the group is about, the first
wrong token gives the error, and the order of tokens matters within the groups only. -/
theorem parse_by_tokens (text : String) :
    let ts := tokens text.toList
    (∀ runs, Runs text.toList runs ↔ runs = ts) ∧
    (∀ other : String, tokens other.toList = ts → parse other = parse text) ∧
    ((∃ o, parse text = .ok o) ↔ ∀ t ∈ ts, ∃ s, Sets t s) ∧
    (∀ o, parse text = .ok o → Reflects ts o) ∧
    (∀ e, parse text = .error e ↔ ∃ before t after, ts = before ++ t :: after ∧
      (∀ u ∈ before, ∃ s, Sets u s) ∧ Offends t e) ∧
    ∀ o, parse text = .ok o → ∀ other : String,
      (∀ g, (tokens other.toList).filter (fun t => decide (Group.ofToken? t = g)) =
        ts.filter fun t => decide (Group.ofToken? t = g)) → parse other = .ok o := by
  intro ts
  refine ⟨?_, ?_, parse_returns_iff, fun _ => reflects_of_parse, fun _ => parse_eq_error_iff,
    fun o h other => parse_reordered h⟩
  · intro runs
    rw [← tokens_eq_iff, eq_comm]
  · intro other h
    rw [parse, parse, ofChars, ofChars, Options.settings, Options.settings, h]

example : parse "absf=2,flushDenorms minf=-0 legacy_default" =
    .ok { method := .decimal, flush := true, minimum := some (.zero true) } := by decide +kernel

example : parse "maxf=inf,,ulps=1=2,relf" = .error (.number "ulps" "1=2") := by decide +kernel

end Options

end Conformance.Comparison
