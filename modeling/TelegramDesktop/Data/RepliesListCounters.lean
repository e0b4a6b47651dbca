import TelegramDesktop.Data.RepliesList

namespace TelegramDesktop.Data.RepliesList
open Base

def Descending (list : List MsgId) : Prop := list.Pairwise fun a b => b < a

theorem descending_append {front back : List MsgId} : Descending (front ++ back) ↔
    Descending front ∧ Descending back ∧ ∀ a ∈ front, ∀ b ∈ back, b < a :=
  List.pairwise_append

theorem le_head {list : List MsgId} (h : Descending list) {front : MsgId}
    (hfront : list.head? = some front) : ∀ a ∈ list, a ≤ front := by
  intro a ha
  cases list with
  | nil => exact nomatch hfront
  | cons b list =>
    obtain rfl := Option.some.inj hfront
    rcases List.mem_cons.mp ha with rfl | ha
    · exact le_rfl
    · exact (List.rel_of_pairwise_cons h ha).le

theorem getLast_le {list : List MsgId} (h : Descending list) {back : MsgId}
    (hback : list.getLast? = some back) : ∀ a ∈ list, back ≤ a := by
  intro a ha
  obtain ⟨front, rfl⟩ := List.getLast?_eq_some_iff.mp hback
  rcases List.mem_append.mp ha with ha | ha
  · exact ((descending_append.mp h).2.2 a ha back List.mem_cons_self).le
  · rw [List.mem_singleton.mp ha]

theorem addMessages_descending {toFront : Bool} {messages : List Message}
    {refreshed list : List MsgId} (h : Descending (refreshed ++ list))
    (hmessages : messages.Pairwise fun a b => b.id < a.id)
    (hless : ∀ message ∈ messages, ∀ a ∈ refreshed, message.id < a) :
    Descending ((addMessages toFront messages refreshed list).1 ++
      (addMessages toFront messages refreshed list).2) := by
  induction messages generalizing refreshed list with
  | nil => exact h
  | cons message messages ih =>
    have hrest : ∀ other ∈ messages, ∀ a ∈ refreshed, other.id < a :=
      fun other hother => hless other (List.mem_cons_of_mem _ hother)
    obtain ⟨hdown, hlist, hacross⟩ := descending_append.mp h
    rw [addMessages]
    split_ifs with hin hfront hback
    · -- The message goes between those for the front and the list.
      obtain ⟨front, hhead, hlt⟩ := (Option.any_eq_true _ _).mp (Bool.and_eq_true_iff.mp hfront).2
      have hlt := of_decide_eq_true hlt
      apply ih
      · rw [List.append_assoc]
        apply descending_append.mpr
        refine ⟨hdown, List.pairwise_cons.mpr ⟨fun a ha => ?_, hlist⟩, fun a ha b hb => ?_⟩
        · exact (le_head hlist hhead a ha).trans_lt hlt
        · rcases List.mem_cons.mp hb with rfl | hb
          · exact hless message List.mem_cons_self a ha
          · exact hacross a ha b hb
      · exact hmessages.of_cons
      · intro other hother a ha
        rcases List.mem_append.mp ha with ha | ha
        · exact hrest other hother a ha
        · rw [List.mem_singleton.mp ha]
          exact List.rel_of_pairwise_cons hmessages hother
    · -- The message goes after the list.
      apply ih
      · rw [← List.append_assoc]
        apply descending_append.mpr
        refine ⟨h, List.pairwise_singleton _ _, fun a ha b hb => ?_⟩
        rw [List.mem_singleton.mp hb]
        rcases List.mem_append.mp ha with ha | ha
        · exact hless message List.mem_cons_self a ha
        · rcases Bool.or_eq_true_iff.mp hback with hempty | hany
          · rw [List.isEmpty_iff.mp hempty] at ha
            exact absurd ha List.not_mem_nil
          · obtain ⟨back, hlast, hlt⟩ := (Option.any_eq_true _ _).mp hany
            exact (of_decide_eq_true hlt).trans_le (getLast_le hlist hlast a ha)
      · exact hmessages.of_cons
      · exact hrest
    · exact ih h hmessages.of_cons hrest
    · exact ih h hmessages.of_cons hrest

theorem addMessages_notFront {messages : List Message} {refreshed list : List MsgId} :
    (addMessages false messages refreshed list).1 = refreshed := by
  induction messages generalizing list with
  | nil => rfl
  | cons message messages ih =>
    rw [addMessages]
    simp only [Bool.false_and, Bool.false_eq_true, if_false]
    split_ifs
    · exact ih
    · exact ih
    · exact ih

theorem addMessages_length {toFront : Bool} {messages : List Message}
    {refreshed list : List MsgId} : refreshed.length + list.length ≤
      (addMessages toFront messages refreshed list).1.length +
        (addMessages toFront messages refreshed list).2.length := by
  induction messages generalizing refreshed list with
  | nil => exact le_rfl
  | cons message messages ih =>
    rw [addMessages]
    split_ifs
    · refine le_trans ?_ ih
      rw [List.length_append]
      omega
    · refine le_trans ?_ ih
      rw [List.length_append]
      omega
    · exact ih
    · exact ih

/-- Messages that are not of the thread change nothing. -/
theorem addMessages_foreign {toFront : Bool} {messages : List Message}
    {refreshed list : List MsgId} (h : ∀ message ∈ messages, message.inThread = false) :
    addMessages toFront messages refreshed list = (refreshed, list) := by
  induction messages with
  | nil => rfl
  | cons message messages ih =>
    rw [addMessages, h message List.mem_cons_self, if_neg Bool.false_ne_true]
    exact ih fun other hother => h other (List.mem_cons_of_mem _ hother)

/-- The first message of the thread comes into an empty list. -/
theorem addMessages_ne_nil {messages : List Message} {list : List MsgId}
    (h : list ≠ [] ∨ ∃ message ∈ messages, message.inThread = true) :
    (addMessages false messages [] list).2 ≠ [] := by
  induction messages generalizing list with
  | nil =>
    rcases h with h | ⟨message, hmessage, -⟩
    · exact h
    · exact absurd hmessage List.not_mem_nil
  | cons message messages ih =>
    rw [addMessages]
    simp only [Bool.false_and, Bool.false_eq_true, if_false]
    split_ifs with hin hback
    · exact ih (.inl (List.append_ne_nil_of_right_ne_nil _ (List.cons_ne_nil _ _)))
    · apply ih
      left
      intro hnil
      exact hback (by rw [hnil]; rfl)
    · apply ih
      rcases h with h | ⟨other, hother, hthread⟩
      · exact .inl h
      · rcases List.mem_cons.mp hother with rfl | hother
        · exact absurd hthread hin
        · exact .inr ⟨other, hother, hthread⟩

theorem addedList_eq (s : RepliesList) (result : Messages) :
    s.addedList result = (addMessages (s.toFront result) result.list [] s.list).1 ++
      (addMessages (s.toFront result) result.list [] s.list).2 := by
  rw [addedList]
  cases hfront : s.toFront result with
  | true => exact if_pos rfl
  | false =>
    rw [addMessages_notFront]
    exact if_neg Bool.false_ne_true

theorem addedList_descending {s : RepliesList} (h : Descending s.list) {result : Messages}
    (hresult : result.list.Pairwise fun a b => b.id < a.id) :
    Descending (s.addedList result) := by
  rw [addedList_eq]
  exact addMessages_descending h hresult fun _ _ _ ha => absurd ha List.not_mem_nil

theorem length_le_addedList (s : RepliesList) (result : Messages) :
    s.list.length ≤ (s.addedList result).length := by
  rw [addedList_eq, List.length_append]
  refine le_trans ?_ addMessages_length
  rw [List.length_nil, Nat.zero_add]

theorem foreign_of_skipped {result : Messages} (h : result.list.length = result.skipped) :
    ∀ message ∈ result.list, message.inThread = false := by
  intro message hmessage
  have hall := List.countP_eq_length.mp h.symm message hmessage
  simpa using hall

theorem addedList_foreign {s : RepliesList} {result : Messages}
    (h : result.list.length = result.skipped) : s.addedList result = s.list := by
  rw [addedList_eq, addMessages_foreign (foreign_of_skipped h), List.nil_append]

def Nonneg (counter : Option ℤ) : Prop := ∀ n, counter = some n → 0 ≤ n

theorem nonneg_none : Nonneg none := fun _ h => nomatch h

theorem nonneg_some {n : ℤ} (h : 0 ≤ n) : Nonneg (some n) := by
  intro m hm
  rw [← Option.some.inj hm]
  exact h

theorem correctBoth_spec {checkedCount nowSize decrementFrom : ℤ} (hsize : nowSize ≤ checkedCount)
    (hnonneg : 0 ≤ decrementFrom) : ∃ counters,
      correctBoth checkedCount nowSize decrementFrom = some counters ∧ 0 ≤ counters.1 ∧
        0 ≤ counters.2 ∧ counters.1 + nowSize + counters.2 = checkedCount ∧
        (decrementFrom = 0 ∨ checkedCount ≤ decrementFrom + nowSize →
          counters.1 = 0 ∨ counters.2 = 0) := by
  have hfine : ¬ checkedCount - max (checkedCount - decrementFrom - nowSize) 0 - nowSize < 0 := by
    omega
  rw [correctBoth, if_neg hfine]
  refine ⟨_, rfl, ?_, ?_, ?_, ?_⟩
  · dsimp only
    omega
  · exact le_max_right _ _
  · dsimp only
    omega
  · intro h
    dsimp only
    omega

/-- The counter that an answer takes for right: that of the side it was added to, where both are
known. -/
def kept (s : RepliesList) (result : Messages) : Option ℤ :=
  match s.skippedBefore, s.skippedAfter with
  | some before, some after => some (if s.toFront result then after else before)
  | some before, none => some before
  | none, after => after

/-- After an answer the counters are known together, and add up to what it counted. -/
theorem processCounters_spec {s : RepliesList} (hbefore : Nonneg s.skippedBefore)
    (hafter : Nonneg s.skippedAfter) (result : Messages) :
    (s.processCounters result = some (none, none) ∧ s.skippedBefore = none ∧
        s.skippedAfter = none) ∨
      ∃ before after, s.processCounters result = some (some before, some after) ∧ 0 ≤ before ∧
        0 ≤ after ∧ before + (s.addedList result).length + after = s.checkedCount result ∧
        (s.addedList result = s.list → (∀ k, s.kept result = some k →
          k = 0 ∨ s.checkedCount result ≤ k + s.list.length) → before = 0 ∨ after = 0) := by
  have hsize : ((s.addedList result).length : ℤ) ≤ s.checkedCount result := le_max_right _ _
  have hgrown := s.length_le_addedList result
  rw [processCounters]
  cases hb : s.skippedBefore with
  | none =>
    cases ha : s.skippedAfter with
    | none =>
      left
      cases s.toFront result <;> exact ⟨rfl, rfl, rfl⟩
    | some after =>
      right
      have hnonneg := hafter after ha
      cases hfront : s.toFront result with
      | true =>
        simp only [decremented, if_true, Option.map_some, kept, hb, ha]
        refine ⟨_, _, rfl, by omega, by omega, by omega, fun hsame hkept => ?_⟩
        have hk := hkept after rfl
        rw [hsame] at hsize ⊢
        omega
      | false =>
        simp only [decremented, Bool.false_eq_true, if_false, Option.map_none, kept, hb, ha]
        refine ⟨_, _, rfl, by omega, by omega, by omega, fun hsame hkept => ?_⟩
        have hk := hkept after rfl
        rw [hsame] at hsize ⊢
        omega
  | some before =>
    have hnonneg := hbefore before hb
    cases ha : s.skippedAfter with
    | none =>
      right
      cases hfront : s.toFront result with
      | true =>
        simp only [decremented, if_true, Option.map_none, kept, hb, ha]
        refine ⟨_, _, rfl, by omega, by omega, by omega, fun hsame hkept => ?_⟩
        have hk := hkept before rfl
        rw [hsame] at hsize ⊢
        omega
      | false =>
        simp only [decremented, Bool.false_eq_true, if_false, Option.map_some, kept, hb, ha]
        refine ⟨_, _, rfl, by omega, by omega, by omega, fun hsame hkept => ?_⟩
        have hk := hkept before rfl
        rw [hsame] at hsize ⊢
        omega
    | some after =>
      right
      have hnonneg' := hafter after ha
      cases hfront : s.toFront result with
      | true =>
        simp only [decremented, if_true, Option.map_some, kept, hb, ha, hfront]
        obtain ⟨counters, hcounters, hdec, hcorrect, hsum, hzero⟩ :=
          correctBoth_spec hsize (le_max_right (after - ((s.addedList result).length -
            s.list.length)) 0)
        rw [hcounters]
        refine ⟨_, _, rfl, hcorrect, hdec, by omega, fun hsame hkept => ?_⟩
        have hk := hkept after rfl
        rw [hsame] at hzero hsize
        have hboth := hzero (by omega)
        omega
      | false =>
        simp only [decremented, Bool.false_eq_true, if_false, Option.map_some, kept, hb, ha, hfront]
        obtain ⟨counters, hcounters, hdec, hcorrect, hsum, hzero⟩ :=
          correctBoth_spec hsize (le_max_right (before - ((s.addedList result).length -
            s.list.length)) 0)
        rw [hcounters]
        refine ⟨_, _, rfl, hdec, hcorrect, by omega, fun hsame hkept => ?_⟩
        have hk := hkept before rfl
        rw [hsame] at hzero hsize
        have hboth := hzero (by omega)
        omega

/-- The list goes down, and the counters are right as far as they are known. -/
structure Consistent (s : RepliesList) : Prop where
  descending : Descending s.list
  before_nonneg : Nonneg s.skippedBefore
  after_nonneg : Nonneg s.skippedAfter
  full_nonneg : Nonneg s.fullCount
  sum : ∀ before after full, s.skippedBefore = some before → s.skippedAfter = some after →
    s.fullCount = some full → before + s.list.length + after = full

/-- The condition on an answer with nothing of the thread, with the counter of the side that was
not asked for: an empty answer comes where the counter needs no change of the full count, and
messages of other threads come where the counter that is kept covers what is counted. -/
def NothingMeets (s : RepliesList) (result : Messages) (other : Option ℤ) : Prop :=
  (result.list = [] → ∀ count full, other = some count → count ≠ 0 → s.fullCount = some full →
    s.list.length + count = full) ∧
  (result.list ≠ [] → result.list.length = result.skipped → ∀ count, s.kept result = some count →
    count = 0 ∨ max (result.fullCount - result.skipped) s.list.length ≤ count + s.list.length)

theorem Consistent.processed {s : RepliesList} (h : s.Consistent) {result : Messages}
    (hresult : result.list.Pairwise fun a b => b.id < a.id) :
    ∃ next isEmpty, s.processMessagesIsEmpty result = some (next, isEmpty) ∧ next.Consistent := by
  rw [processMessagesIsEmpty]
  split_ifs with hempty
  · exact ⟨s, true, rfl, h⟩
  · have hdown := addedList_descending h.descending hresult
    have hcount : (0 : ℤ) ≤ s.checkedCount result :=
      (Int.natCast_nonneg _).trans (le_max_right _ _)
    rcases processCounters_spec h.before_nonneg h.after_nonneg result with
      ⟨hcounters, -, -⟩ | ⟨before, after, hcounters, hb, ha, hsum, -⟩
    · rw [hcounters]
      exact ⟨_, _, rfl, hdown, nonneg_none, nonneg_none, nonneg_some hcount,
        fun _ _ _ hnone => nomatch hnone⟩
    · rw [hcounters]
      refine ⟨_, _, rfl, hdown, nonneg_some hb, nonneg_some ha, nonneg_some hcount, ?_⟩
      intro before' after' full hbefore hafter hfull
      rw [← Option.some.inj hbefore, ← Option.some.inj hafter, ← Option.some.inj hfull]
      exact hsum

/-- With nothing of the thread in an answer the list stays, and so does the sum without the
counter of the side that was asked for. -/
theorem Consistent.nothing {s next : RepliesList} (h : s.Consistent) {result : Messages}
    (hprocess : s.processMessagesIsEmpty result = some (next, true)) :
    next.list = s.list ∧
      (s.NothingMeets result s.skippedAfter → ∀ count full, next.skippedAfter = some count →
        count ≠ 0 → next.fullCount = some full → next.list.length + count = full) ∧
      (s.NothingMeets result s.skippedBefore → ∀ count full, next.skippedBefore = some count →
        count ≠ 0 → next.fullCount = some full → next.list.length + count = full) := by
  rw [processMessagesIsEmpty] at hprocess
  split_ifs at hprocess with hempty
  · have hsame : s = next := congrArg Prod.fst (Option.some.inj hprocess)
    have hnil := List.isEmpty_iff.mp hempty
    subst hsame
    exact ⟨rfl, fun hmeets => hmeets.1 hnil, fun hmeets => hmeets.1 hnil⟩
  · have hne : result.list ≠ [] := fun hnil => hempty (List.isEmpty_iff.mpr hnil)
    obtain ⟨counters, hcounters, hpair⟩ := Option.map_eq_some_iff.mp hprocess
    have hforeign : result.list.length = result.skipped :=
      of_decide_eq_true (congrArg Prod.snd hpair)
    have hlist := addedList_foreign (s := s) hforeign
    have hnext := congrArg Prod.fst hpair
    dsimp only at hnext
    subst hnext
    have hchecked : s.checkedCount result =
        max (result.fullCount - result.skipped) s.list.length := by
      rw [checkedCount, hlist]
    rcases processCounters_spec h.before_nonneg h.after_nonneg result with
      ⟨hnone, -, -⟩ | ⟨before, after, hsome, -, -, hsum, hzero⟩
    · obtain rfl := Option.some.inj (hcounters.symm.trans hnone)
      exact ⟨hlist, fun _ _ _ hcount => (nomatch hcount), fun _ _ _ hcount => (nomatch hcount)⟩
    · obtain rfl := Option.some.inj (hcounters.symm.trans hsome)
      rw [← hchecked.symm] at hzero
      refine ⟨hlist, fun hmeets count full hcount hne' hfull => ?_,
        fun hmeets count full hcount hne' hfull => ?_⟩
      · have hside := hzero hlist (hmeets.2 hne hforeign)
        have hafter := Option.some.inj hcount
        have hfull := Option.some.inj hfull
        dsimp only
        omega
      · have hside := hzero hlist (hmeets.2 hne hforeign)
        have hbefore := Option.some.inj hcount
        have hfull := Option.some.inj hfull
        dsimp only
        omega

theorem Consistent.beforeDone {s : RepliesList} (h : s.Consistent) {last : MsgId}
    {result : Messages} (hresult : result.list.Pairwise fun a b => b.id < a.id)
    (hmeets : s.list.getLast? = some last → s.NothingMeets result s.skippedAfter) :
    ∃ next, s.beforeDone last result = some next ∧ next.Consistent := by
  rw [RepliesList.beforeDone]
  split_ifs with hstale
  · exact ⟨s, rfl, h⟩
  · have hlast : s.list.getLast? = some last := by
      by_contra hne
      exact hstale (.inr hne)
    obtain ⟨next, isEmpty, hprocess, hnext⟩ := h.processed hresult
    rw [hprocess]
    refine ⟨_, rfl, ?_⟩
    cases isEmpty with
    | false => exact hnext
    | true =>
      obtain ⟨-, hafter, -⟩ := h.nothing hprocess
      have hsum := hafter (hmeets hlast)
      simp only [if_true]
      split_ifs with hzero
      · refine ⟨hnext.descending, nonneg_some le_rfl, hnext.after_nonneg,
          nonneg_some (Int.natCast_nonneg _), ?_⟩
        intro before after full hb ha hf
        have ha' := Option.some.inj (ha.symm.trans hzero)
        rw [← Option.some.inj hb, ha', ← Option.some.inj hf]
        dsimp only
        omega
      · refine ⟨hnext.descending, nonneg_some le_rfl, hnext.after_nonneg, hnext.full_nonneg, ?_⟩
        intro before after full hb ha hf
        have hne : after ≠ 0 := fun hnil => hzero (hnil ▸ ha)
        rw [← Option.some.inj hb, zero_add]
        exact hsum after full ha hne hf

theorem Consistent.afterDone {s : RepliesList} (h : s.Consistent) {first : MsgId}
    {result : Messages} (hresult : result.list.Pairwise fun a b => b.id < a.id)
    (hmeets : s.list.head? = some first → s.NothingMeets result s.skippedBefore) :
    ∃ next, s.afterDone first result = some next ∧ next.Consistent := by
  rw [RepliesList.afterDone]
  split_ifs with hstale
  · exact ⟨s, rfl, h⟩
  · have hfirst : s.list.head? = some first := by
      by_contra hne
      exact hstale (.inr hne)
    obtain ⟨next, isEmpty, hprocess, hnext⟩ := h.processed hresult
    rw [hprocess]
    refine ⟨_, rfl, ?_⟩
    cases isEmpty with
    | false => exact hnext
    | true =>
      obtain ⟨-, -, hbefore⟩ := h.nothing hprocess
      have hsum := hbefore (hmeets hfirst)
      simp only [if_true]
      split_ifs with hzero
      · refine ⟨hnext.descending, hnext.before_nonneg, nonneg_some le_rfl,
          nonneg_some (Int.natCast_nonneg _), ?_⟩
        intro before after full hb ha hf
        have hb' := Option.some.inj (hb.symm.trans hzero)
        rw [hb', ← Option.some.inj ha, ← Option.some.inj hf]
        dsimp only
        omega
      · refine ⟨hnext.descending, hnext.before_nonneg, nonneg_some le_rfl, hnext.full_nonneg, ?_⟩
        intro before after full hb ha hf
        have hne : before ≠ 0 := fun hnil => hzero (hnil ▸ hb)
        have htotal := hsum before full hb hne hf
        rw [← Option.some.inj ha]
        dsimp only
        omega

theorem Consistent.aroundDone {s : RepliesList} (h : s.Consistent) (id : MsgId)
    {result : Messages} (hresult : result.list.Pairwise fun a b => b.id < a.id) :
    ∃ next, s.aroundDone id result = some next ∧ next.Consistent := by
  rw [RepliesList.aroundDone]
  have hcleared : Consistent { s with
      list := []
      skippedBefore := none
      skippedAfter := if id = 0 then some 0 else none } := by
    refine ⟨.nil, nonneg_none, ?_, h.full_nonneg, fun _ _ _ hnone => nomatch hnone⟩
    dsimp only
    split_ifs
    · exact nonneg_some le_rfl
    · exact nonneg_none
  obtain ⟨next, isEmpty, hprocess, hnext⟩ := hcleared.processed hresult
  dsimp only
  rw [hprocess, Option.bind_some]
  cases isEmpty with
  | true =>
    have hnil : next.list = [] := (hcleared.nothing hprocess).1
    have hzero := nonneg_some (le_refl (0 : ℤ))
    refine ⟨_, if_pos rfl, hnext.descending, hzero, hzero, hzero, ?_⟩
    intro before after full hb ha hf
    rw [← Option.some.inj hb, ← Option.some.inj ha, ← Option.some.inj hf]
    dsimp only
    rw [hnil]
    rfl
  | false =>
    rw [if_neg Bool.false_ne_true]
    by_cases hid : id = 0
    · rw [if_pos hid]
      exact ⟨next, rfl, hnext⟩
    · rw [if_neg hid]
      -- Something of the thread was in the answer, so the list is not empty now.
      rw [if_neg hid] at hprocess
      rw [processMessagesIsEmpty] at hprocess
      split_ifs at hprocess with hempty
      · exact nomatch congrArg Prod.snd (Option.some.inj hprocess)
      · obtain ⟨counters, hcounters, hpair⟩ := Option.map_eq_some_iff.mp hprocess
        have hsome := of_decide_eq_false (congrArg Prod.snd hpair)
        have heq := congrArg Prod.fst hpair
        dsimp only at heq
        obtain ⟨message, hmessage, hthread⟩ : ∃ message ∈ result.list,
            message.inThread = true := by
          by_contra hnone
          apply hsome
          refine (List.countP_eq_length.mpr fun message hmessage => ?_).symm
          cases hthread : message.inThread with
          | false => rfl
          | true => exact absurd ⟨message, hmessage, hthread⟩ hnone
        have hne : next.list ≠ [] := by
          rw [← heq]
          exact addMessages_ne_nil (.inr ⟨message, hmessage, hthread⟩)
        have hnone : counters = (none, none) := by
          rw [processCounters] at hcounters
          exact (Option.some.inj hcounters).symm
        have hbefore : next.skippedBefore = none := by
          rw [← heq, hnone]
        have hafter : next.skippedAfter = none := by
          rw [← heq, hnone]
        rw [List.head?_eq_some_head hne, List.getLast?_eq_some_getLast hne]
        dsimp only
        split_ifs
        · refine ⟨_, rfl, hnext.descending, hnext.before_nonneg, nonneg_some le_rfl,
            hnext.full_nonneg, fun _ _ _ hb => ?_⟩
          exact nomatch hbefore.symm.trans hb
        · refine ⟨_, rfl, hnext.descending, nonneg_some le_rfl, hnext.after_nonneg,
            hnext.full_nonneg, fun _ _ _ _ ha => ?_⟩
          exact nomatch hafter.symm.trans ha
        · exact ⟨next, rfl, hnext⟩

/-- With both counters and a list of a size the full count is an `int`. -/
def CountsInt (s : RepliesList) (size : ℕ) : Prop :=
  ∀ before after, s.skippedBefore = some before → s.skippedAfter = some after →
    before + size + after < 2 ^ 31

theorem Consistent.countUpdated {s : RepliesList} (h : s.Consistent) {list : List MsgId}
    (hlist : Descending list) (hint : s.CountsInt list.length) {known : ℤ → ℤ}
    (hknown : s.skippedBefore = none ∨ s.skippedAfter = none → ∀ n, s.fullCount = some n →
      0 ≤ known n) : Consistent (s.countUpdated list known) := by
  refine ⟨hlist, h.before_nonneg, h.after_nonneg, ?_, ?_⟩
  · rw [RepliesList.countUpdated]
    cases hb : s.skippedBefore with
    | none =>
      intro n hn
      obtain ⟨full, hfull, rfl⟩ := Option.map_eq_some_iff.mp hn
      exact hknown (.inl hb) full hfull
    | some before =>
      cases ha : s.skippedAfter with
      | none =>
        intro n hn
        obtain ⟨full, hfull, rfl⟩ := Option.map_eq_some_iff.mp hn
        exact hknown (.inr ha) full hfull
      | some after =>
        have hb' := h.before_nonneg before hb
        have ha' := h.after_nonneg after ha
        have hlt := hint before after hb ha
        apply nonneg_some
        rw [int32Add_of_range (by omega) hlt]
        omega
  · intro before after full hb ha hf
    have hb' : s.skippedBefore = some before := hb
    have ha' : s.skippedAfter = some after := ha
    rw [RepliesList.countUpdated] at hf ⊢
    rw [hb', ha'] at hf
    have hb0 := h.before_nonneg before hb'
    have ha0 := h.after_nonneg after ha'
    have hlt := hint before after hb' ha'
    rw [← Option.some.inj hf]
    exact (int32Add_of_range (by omega) hlt).symm

theorem descending_insert {list : List MsgId} (h : Descending list) {id : MsgId}
    (hnew : id ∉ list) : Descending ((list.takeWhile fun other => decide (id < other)) ++
      id :: list.dropWhile fun other => decide (id < other)) := by
  induction list with
  | nil => exact List.pairwise_singleton _ _
  | cons a list ih =>
    have hne : id ≠ a := fun heq => hnew (heq ▸ List.mem_cons_self)
    by_cases hlt : id < a
    · simp only [List.takeWhile_cons, List.dropWhile_cons, decide_eq_true hlt, if_true,
        List.cons_append]
      refine List.pairwise_cons.mpr ⟨fun b hb => ?_, ih h.of_cons fun hin =>
        hnew (List.mem_cons_of_mem _ hin)⟩
      rcases List.mem_append.mp hb with hb | hb
      · exact List.rel_of_pairwise_cons h ((List.takeWhile_sublist _).mem hb)
      · rcases List.mem_cons.mp hb with rfl | hb
        · exact hlt
        · exact List.rel_of_pairwise_cons h ((List.dropWhile_sublist _).mem hb)
    · simp only [List.takeWhile_cons, List.dropWhile_cons, decide_eq_false hlt,
        Bool.false_eq_true, if_false, List.nil_append]
      refine List.pairwise_cons.mpr ⟨fun b hb => ?_, h⟩
      rcases List.mem_cons.mp hb with rfl | hb
      · exact lt_of_le_of_ne (not_lt.mp hlt) hne.symm
      · exact (List.rel_of_pairwise_cons h hb).trans_le (not_lt.mp hlt)

theorem length_insert (list : List MsgId) (id : MsgId) :
    ((list.takeWhile fun other => decide (id < other)) ++
      id :: list.dropWhile fun other => decide (id < other)).length = list.length + 1 := by
  have hlength := congrArg List.length
    (List.takeWhile_append_dropWhile (p := fun other => decide (id < other)) (l := list))
  rw [List.length_append] at hlength
  rw [List.length_append, List.length_cons]
  omega

theorem Consistent.applyDestroyed {s : RepliesList} (h : s.Consistent) {id : MsgId}
    (hint : id ∈ s.list → s.CountsInt (s.list.length - 1)) : (s.applyDestroyed id).Consistent := by
  rw [RepliesList.applyDestroyed]
  split_ifs with hin
  · have hlength := List.length_erase_of_mem hin
    apply h.countUpdated (h.descending.sublist List.erase_sublist) (hlength ▸ hint hin)
    intro _ n hn
    have hnonneg := h.full_nonneg n hn
    split_ifs
    · omega
    · exact hnonneg
  · exact h

theorem Consistent.applyAdded {s : RepliesList} (h : s.Consistent) {id : MsgId}
    (hint : s.skippedAfter = some 0 → id ∉ s.list → s.CountsInt (s.list.length + 1) ∧
      (s.skippedBefore = none → ∀ full, s.fullCount = some full → full + 1 < 2 ^ 31)) :
    (s.applyAdded id).Consistent := by
  rw [RepliesList.applyAdded]
  split_ifs with hskip
  · exact h
  · obtain ⟨hafter, hnew⟩ := not_or.mp hskip
    obtain ⟨hboth, hone⟩ := hint (not_not.mp hafter) hnew
    have hlength := length_insert s.list id
    apply h.countUpdated (descending_insert h.descending hnew) (hlength ▸ hboth)
    rintro (hbefore | hnone) n hn
    · have hnonneg := h.full_nonneg n hn
      rw [int32Add_of_range (by omega) (hone hbefore n hn)]
      omega
    · exact absurd (hnone ▸ not_not.mp hafter) (Option.some_ne_none 0).symm

theorem Consistent.applyDifferenceTooLong {s : RepliesList} (h : s.Consistent) :
    s.applyDifferenceTooLong.Consistent := by
  rw [RepliesList.applyDifferenceTooLong]
  split_ifs
  · exact ⟨h.descending, h.before_nonneg, nonneg_none, h.full_nonneg,
      fun _ _ _ _ hnone => nomatch hnone⟩
  · exact h

/-- What happens to the list. An answer may come for whatever id was asked with: a failed or
cancelled request changes nothing here. -/
inductive Op where
  | aroundDone (id : MsgId) (result : Messages)
  | beforeDone (last : MsgId) (result : Messages)
  | afterDone (first : MsgId) (result : Messages)
  | failed
  | destroyed (id : MsgId)
  | added (id : MsgId)
  | differenceTooLong

def step (s : RepliesList) : Op → Option RepliesList
  | .aroundDone id result => s.aroundDone id result
  | .beforeDone last result => s.beforeDone last result
  | .afterDone first result => s.afterDone first result
  | .failed => some s
  | .destroyed id => some (s.applyDestroyed id)
  | .added id => some (s.applyAdded id)
  | .differenceTooLong => some s.applyDifferenceTooLong

/-- The messages of an answer come with the last one first. -/
def Op.Ordered : Op → Prop
  | .aroundDone _ result | .beforeDone _ result | .afterDone _ result =>
    result.list.Pairwise fun a b => b.id < a.id
  | _ => True

/-- The condition on a step. The full count that an update of one message gives is an `int`. -/
def Meets (s : RepliesList) : Op → Prop
  | .beforeDone last result =>
    s.list.getLast? = some last → s.NothingMeets result s.skippedAfter
  | .afterDone first result =>
    s.list.head? = some first → s.NothingMeets result s.skippedBefore
  | .destroyed id => id ∈ s.list → s.CountsInt (s.list.length - 1)
  | .added id => s.skippedAfter = some 0 → id ∉ s.list → s.CountsInt (s.list.length + 1) ∧
      (s.skippedBefore = none → ∀ full, s.fullCount = some full → full + 1 < 2 ^ 31)
  | _ => True

theorem Consistent.step {s : RepliesList} (h : s.Consistent) {op : Op} (hop : op.Ordered)
    (hmeets : s.Meets op) : ∃ next, s.step op = some next ∧ next.Consistent := by
  cases op with
  | aroundDone id result => exact h.aroundDone id hop
  | beforeDone last result => exact h.beforeDone hop hmeets
  | afterDone first result => exact h.afterDone hop hmeets
  | failed => exact ⟨s, rfl, h⟩
  | destroyed id => exact ⟨_, rfl, h.applyDestroyed hmeets⟩
  | added id => exact ⟨_, rfl, h.applyAdded hmeets⟩
  | differenceTooLong => exact ⟨_, rfl, h.applyDifferenceTooLong⟩

/-- Reached from a new list by answers and updates that meet the condition. -/
inductive Reaches : RepliesList → Prop
  | start : Reaches {}
  | step {s next : RepliesList} (op : Op) : Reaches s → op.Ordered → s.Meets op →
      s.step op = some next → Reaches next

theorem Reaches.consistent {s : RepliesList} (h : Reaches s) : s.Consistent := by
  induction h with
  | start => exact ⟨.nil, nonneg_none, nonneg_none, nonneg_none, fun _ _ _ hnone => nomatch hnone⟩
  | step op _ hop hmeets hstep ih =>
    obtain ⟨next, hnext, hconsistent⟩ := ih.step hop hmeets
    obtain rfl := Option.some.inj (hnext.symm.trans hstep)
    exact hconsistent

/-- The counters add up in every state, and the next answer or update fails no `Assert`. -/
theorem run_counters_add_up {s : RepliesList} (h : Reaches s) : s.Consistent ∧
    ∀ op : Op, op.Ordered → s.Meets op → (s.step op).isSome := by
  refine ⟨h.consistent, fun op hop hmeets => ?_⟩
  obtain ⟨next, hnext, -⟩ := h.consistent.step hop hmeets
  rw [hnext]
  rfl

/-- Two messages of a thread, the last ones, of five. -/
theorem run_counters_add_up_two : ∃ s : RepliesList, s.Reaches ∧ s.Consistent ∧
    ∀ op : Op, op.Ordered → s.Meets op → (s.step op).isSome := by
  have hordered : Op.Ordered (.aroundDone 0 (.messagesSlice 5 [⟨20, true⟩, ⟨10, true⟩])) := by
    simp [Op.Ordered, Messages.list]
  have hreach : Reaches _ := .step _ .start hordered trivial rfl
  exact ⟨_, hreach, run_counters_add_up hreach⟩

/-- With one newer message counted after the list, the server has none to give before it any more:
the four that were counted there are left in the full count. -/
theorem empty_answer_keeps_count : ∃ s next : RepliesList, s.Reaches ∧
    s.step (.beforeDone 20 (.messagesSlice 7 [])) = some next ∧ next.list = [30, 20] ∧
    next.skippedBefore = some 0 ∧ next.skippedAfter = some 1 ∧ next.fullCount = some 7 ∧
    ¬ next.Consistent := by
  have hordered : ∀ n id, Op.Ordered (.aroundDone 0 (.messagesSlice n [⟨id, true⟩])) ∧
      Op.Ordered (.afterDone 20 (.messagesSlice n [⟨id, true⟩])) := by
    intro n id
    simp [Op.Ordered, Messages.list]
  have haround : Reaches ⟨[20], some 4, some 0, some 5⟩ :=
    .step _ .start (hordered 5 20).1 trivial rfl
  have hlong : Reaches ⟨[20], some 4, none, some 5⟩ :=
    .step .differenceTooLong haround trivial trivial rfl
  have hafter : Reaches ⟨[30, 20], some 4, some 1, some 7⟩ :=
    .step _ hlong (hordered 7 30).2
      (fun _ => ⟨fun h => (nomatch h), fun _ h => absurd h (by decide)⟩) rfl
  exact ⟨_, _, hafter, rfl, rfl, rfl, rfl, rfl,
    fun h => absurd (h.sum 0 1 7 rfl rfl rfl) (by decide)⟩

end TelegramDesktop.Data.RepliesList
