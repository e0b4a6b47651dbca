import TelegramDesktop.Data.SliceBuilderCounters

namespace TelegramDesktop.Data.SliceBuilder
open Base Storage

variable {α : Type*} [LinearOrder α] [Inhabited α] (kind : Kind α)

omit [Inhabited α] in
theorem filter_ne_of_not_mem {list : List α} {id : α} (h : id ∉ list) :
    list.filter (fun x => decide (x ≠ id)) = list := by
  apply List.filter_eq_self.mpr
  intro x hx
  exact decide_eq_true fun heq => h (heq ▸ hx)

theorem decrease_of_pos {count : Option ℤ} {n m : ℤ} (hn : decrease count = some n)
    (hcount : ∀ n, count = some n → n = m) (hpos : 0 < m) : n = m - 1 := by
  obtain ⟨k, hk, hkn⟩ := Option.map_eq_some_iff.mp hn
  have heq := hcount k hk
  rw [heq, if_pos hpos] at hkn
  exact hkn.symm

omit [Inhabited α] in
/-- The removal of an id of the server, of the window or of a side next to it. -/
theorem Counts.removeId {server : FlatSet α} {builder : SliceBuilder α}
    (h : builder.Counts server) {id : α} (hid : id ∈ server)
    (hempty : builder.ids ≠ ∅ ∨ builder.skippedBefore = none ∧ builder.skippedAfter = none) :
    (builder.removeId id).1.Counts (server.remove id) := by
  obtain ⟨⟨before, after, hsplits, hbefore, hafter⟩, hfull⟩ := h
  have hremoved := hsplits.remove id
  have hsize := FlatSet.size_remove_of_mem hid
  have hfull' : ∀ n, decrease builder.fullCount = some n → n = (server.remove id).size := by
    intro n hn
    have hdec := decrease_of_pos hn hfull (by omega)
    omega
  have hbeforesize := hsplits.size
  have haftersize := hremoved.size
  rw [SliceBuilder.removeId]
  dsimp only
  by_cases hwindow : id ∈ builder.ids
  · rw [if_pos hwindow]
    have hb : id ∉ before := fun hb => lt_irrefl id (hsplits.before_lt hb (.inl hwindow))
    have ha : id ∉ after := fun ha => lt_irrefl id (hsplits.lt_after (.inr hwindow) ha)
    rw [filter_ne_of_not_mem hb, filter_ne_of_not_mem ha] at hremoved
    exact ⟨⟨before, after, hremoved, hbefore, hafter⟩, hfull'⟩
  · rw [if_neg hwindow]
    rw [FlatSet.remove_of_not_mem hwindow] at hremoved haftersize
    by_cases hids : builder.ids = ∅
    · -- no skipped number is known
      obtain ⟨hnoneb, hnonea⟩ := hempty.resolve_left (not_not.mpr hids)
      have hpos : positive (none : Option ℤ) = false := rfl
      simp only [hnoneb, hnonea, hpos, Bool.false_eq_true, and_false, if_false]
      refine ⟨⟨_, _, hremoved, ?_, ?_⟩, hfull'⟩
      · exact fun n hn => absurd hn (by simp)
      · exact fun n hn => absurd hn (by simp)
    · obtain ⟨front, back, hfront, hback⟩ := FlatSet.ends_of_ne hids
      have hle := FlatSet.head_le hfront (FlatSet.last_mem hback)
      rw [hfront, hback]
      simp only [Option.any_some, decide_eq_true_eq]
      rcases (hsplits.mem.mp hid) with hb | hw | ha
      · have hlt : id < front := hsplits.before_lt hb (.inl (FlatSet.head_mem hfront))
        have hnot : ¬ back < id := not_lt.mpr (hlt.le.trans hle)
        have ha : id ∉ after := fun ha => lt_irrefl id (hsplits.before_lt hb (.inr ha))
        have hpos := List.length_pos_of_mem hb
        rw [filter_ne_of_not_mem ha] at hremoved haftersize
        simp only [hlt, hnot, true_and, false_and, if_false]
        split_ifs with hknown
        · refine ⟨⟨_, after, hremoved, ?_, hafter⟩, hfull'⟩
          intro n hn
          have hdec := decrease_of_pos hn hbefore (by omega)
          omega
        · refine ⟨⟨_, after, hremoved, ?_, hafter⟩, hfull'⟩
          intro n hn
          have hcount := hbefore n hn
          dsimp only at hn
          rw [hn] at hknown
          exact absurd (decide_eq_true (by omega : 0 < n)) hknown
      · exact absurd hw hwindow
      · have hlt : back < id := hsplits.lt_after (.inr (FlatSet.last_mem hback)) ha
        have hnot : ¬ id < front := not_lt.mpr (hle.trans hlt.le)
        have hb : id ∉ before := fun hb => lt_irrefl id (hsplits.before_lt hb (.inr ha))
        have hpos := List.length_pos_of_mem ha
        rw [filter_ne_of_not_mem hb] at hremoved haftersize
        simp only [hlt, hnot, true_and, false_and, if_false]
        split_ifs with hknown
        · refine ⟨⟨before, _, hremoved, hbefore, ?_⟩, hfull'⟩
          intro n hn
          have hdec := decrease_of_pos hn hafter (by omega)
          omega
        · refine ⟨⟨before, _, hremoved, hbefore, ?_⟩, hfull'⟩
          intro n hn
          have hcount := hafter n hn
          dsimp only at hn
          rw [hn] at hknown
          exact absurd (decide_eq_true (by omega : 0 < n)) hknown

theorem Counts.removeOne {server : FlatSet α} {builder : SliceBuilder α}
    (h : builder.Counts server) {id : α} (hid : id ∈ server)
    (hempty : builder.ids ≠ ∅ ∨ builder.skippedBefore = none ∧ builder.skippedAfter = none) :
    (builder.removeOne kind id).builder.Counts (server.remove id) := by
  have hremoved := h.removeId hid hempty
  rw [SliceBuilder.removeOne]
  dsimp only
  split_ifs
  · exact hremoved.sliceToLimits kind
  · exact hremoved

omit [Inhabited α] in
theorem removeAll_counts (builder : SliceBuilder α) : builder.removeAll.builder.Counts ∅ := by
  refine ⟨⟨[], [], ⟨rfl⟩, ?_, ?_⟩, ?_⟩ <;> exact fun n hn => (Option.some.inj hn).symm

/-- Ids may have come behind the ones that were there. -/
theorem Counts.invalidateBottom {server server' : FlatSet α} {builder : SliceBuilder α}
    (h : builder.Counts server) {more : List α} (hmore : server'.elems = server.elems ++ more) :
    (builder.invalidateBottom kind).builder.Counts server' := by
  obtain ⟨⟨before, after, hsplits, hbefore, -⟩, -⟩ := h
  apply Counts.sliceToLimits
  refine ⟨⟨before, after ++ more, ⟨?_⟩, hbefore, fun n hn => absurd hn (by simp)⟩,
    fun n hn => absurd hn (by simp)⟩
  rw [hmore, hsplits.elems, List.append_assoc]

/-- What a result says is so of the ids of the server. -/
structure TruthfulResult (server : FlatSet α) (result : Result α) : Prop where
  count : ∀ n, result.count = some n → n = server.size
  skips : result.messageIds ≠ ∅ → ∃ before after, server.Splits before result.messageIds after ∧
    (∀ n, result.skippedBefore = some n → n = before.length) ∧
    ∀ n, result.skippedAfter = some n → n = after.length

theorem applyInitial_counts {server : FlatSet α} (key : α) (limitBefore limitAfter : ℕ)
    {result : Result α} (h : TruthfulResult server result) :
    ∃ applied, ({ key, limitBefore, limitAfter } : SliceBuilder α).applyInitial kind result =
      some applied ∧ applied.builder.Counts server := by
  obtain ⟨builder, hbuilder⟩ :
      ∃ b : SliceBuilder α, b = { key, limitBefore, limitAfter } := ⟨_, rfl⟩
  have hids : builder.ids = ∅ := by rw [hbuilder]
  have hfull : builder.fullCount = none := by rw [hbuilder]
  have hbefore : builder.skippedBefore = none := by rw [hbuilder]
  have hafter : builder.skippedAfter = none := by rw [hbuilder]
  rw [← hbuilder]
  by_cases hempty : result.messageIds = ∅
  · have hskips : builder.Skips server := by
      refine ⟨server.elems, [], ⟨by rw [hids]; simp⟩, ?_, ?_⟩
      · exact fun n hn => absurd (hbefore.symm.trans hn) (by simp)
      · exact fun n hn => absurd (hafter.symm.trans hn) (by simp)
    rw [SliceBuilder.applyInitial, hempty, mergeSliceData_empty]
    refine ⟨_, rfl, (hskips.mergeCount h.count ?_).fillSkipped kind⟩
    exact fun _ n hn => absurd (hfull.symm.trans hn) (by simp)
  · obtain ⟨before, after, hsplits, hb, ha⟩ := h.skips hempty
    obtain ⟨front, back, hfront, hback⟩ := FlatSet.ends_of_ne hempty
    have hmerged : builder.ids.merge result.messageIds.elems = result.messageIds := by
      apply FlatSet.merge_eq
      rw [hids]
      exact fun x hx => absurd hx (FlatSet.not_mem_empty x)
    have hresult : ∃ merged, builder.mergeSliceData kind result.count result.messageIds
        result.skippedBefore result.skippedAfter = some merged ∧ merged.1.Counts server := by
      apply mergeSliceData_counts kind hfront hback (by rw [hmerged]; exact hsplits) h.count
      · exact fun _ n hn => absurd (hfull.symm.trans hn) (by simp)
      · intro n hn
        rw [hmerged, adjustSkippedBefore, if_pos (FlatSet.head_mem hfront),
          FlatSet.lowerBound_head hfront, hb n hn]
        simp
      · intro id n _ hid
        rw [hids] at hid
        exact absurd hid (by simp)
      · intro n hn
        have hlast := FlatSet.last_mem hback
        have hsize := FlatSet.size_eq_of_mem hlast
        rw [FlatSet.behind_last hback] at hsize
        rw [hmerged, adjustSkippedAfter, if_pos hlast, ha n hn, Option.some_inj]
        omega
      · intro id n _ hid
        rw [hids] at hid
        exact absurd hid (by simp)
    obtain ⟨merged, hmerge, hcounts⟩ := hresult
    refine ⟨⟨merged.1, merged.2, true⟩, ?_, hcounts⟩
    rw [SliceBuilder.applyInitial, hmerge]
    rfl

inductive Notification (α : Type*) [LinearOrder α] [Inhabited α]
  | updated (update : SliceUpdate α)
  | oneRemoved (messageId : α)
  | allRemoved
  | bottomInvalidated

def notify (builder : SliceBuilder α) : Notification α → Option (Applied α)
  | .updated update => builder.applyUpdate kind update
  | .oneRemoved messageId => some (builder.removeOne kind messageId)
  | .allRemoved => some builder.removeAll
  | .bottomInvalidated => some (builder.invalidateBottom kind)

/-- What a consistent list tells, with the ids of the server before and after: only truthful
updates, of a new id together with it, and removals of ids that were there. -/
def Told (builder : SliceBuilder α) (server server' : FlatSet α) : Notification α → Prop
  | .updated update => Truthful server' update ∧ builder.Grows server server' update ∧
    ∀ x ∈ server', kind.minId ≤ x ∧ x ≤ kind.maxId
  | .oneRemoved messageId => messageId ∈ server ∧ server' = server.remove messageId
  | .allRemoved => server' = ∅
  | .bottomInvalidated => ∃ more, server'.elems = server.elems ++ more

/-- The builder can tell what a new or a removed id does to its numbers. -/
def Follows (builder : SliceBuilder α) (server server' : FlatSet α) : Notification α → Prop
  | .updated update => ∀ id ∈ server', id ∉ server → builder.NewIdFits server update id
  | .oneRemoved _ =>
    builder.ids ≠ ∅ ∨ builder.skippedBefore = none ∧ builder.skippedAfter = none
  | .allRemoved => True
  | .bottomInvalidated => True

theorem Counts.notify {server server' : FlatSet α} {builder : SliceBuilder α}
    (h : builder.Counts server) {notification : Notification α}
    (htold : builder.Told kind server server' notification)
    (hfollows : builder.Follows server server' notification) :
    ∃ applied, builder.notify kind notification = some applied ∧
      applied.builder.Counts server' := by
  cases notification with
  | updated update => exact h.applyUpdate kind htold.1 htold.2.2 htold.2.1 hfollows
  | oneRemoved messageId =>
    refine ⟨_, rfl, ?_⟩
    rw [htold.2]
    exact h.removeOne kind htold.1 hfollows
  | allRemoved =>
    refine ⟨_, rfl, ?_⟩
    rw [show server' = ∅ from htold]
    exact removeAll_counts builder
  | bottomInvalidated =>
    obtain ⟨more, hmore⟩ := htold
    exact ⟨_, rfl, h.invalidateBottom kind hmore⟩

/-- A builder with the ids that the server has. -/
structure Viewer (α : Type*) [LinearOrder α] where
  builder : SliceBuilder α
  server : FlatSet α
  deriving DecidableEq

def Viewer.open (key : α) (limitBefore limitAfter : ℕ) (result : Result α) (server : FlatSet α) :
    Option (Viewer α) :=
  (({ key, limitBefore, limitAfter } : SliceBuilder α).applyInitial kind result).map
    fun applied => ⟨applied.builder, server⟩

/-- A notification with the ids that the server has after it. -/
def Viewer.step : Option (Viewer α) → Notification α × FlatSet α →
    Option (Viewer α) × List (AroundData α)
  | some viewer, (notification, server) =>
    match viewer.builder.notify kind notification with
    | some applied => (some ⟨applied.builder, server⟩, applied.insufficientAround)
    | none => (none, [])
  | none, _ => (none, [])

def Viewer.Told : Option (Viewer α) → Notification α × FlatSet α → Prop
  | some viewer, (notification, server) =>
    viewer.builder.Told kind viewer.server server notification
  | none, _ => False

def Viewer.Follows : Option (Viewer α) → Notification α × FlatSet α → Prop
  | some viewer, (notification, server) =>
    viewer.builder.Told kind viewer.server server notification ∧
      viewer.builder.Follows viewer.server server notification
  | none, _ => False

theorem run_counts (key : α) (limitBefore limitAfter : ℕ) {result : Result α} {server : FlatSet α}
    (hresult : TruthfulResult server result) {events : List (Notification α × FlatSet α)}
    (h : RunMeets (Viewer.step kind) (Viewer.Follows kind)
      (Viewer.open kind key limitBefore limitAfter result server) events) :
    ∃ viewer, (run (Viewer.step kind)
      (Viewer.open kind key limitBefore limitAfter result server) events).1 = some viewer ∧
      viewer.builder.Counts viewer.server := by
  apply runMeets_invariant (Viewer.step kind) (Viewer.Follows kind)
    (fun _ state _ => ∃ viewer, state = some viewer ∧ viewer.builder.Counts viewer.server) _ _
    events h
  · obtain ⟨applied, happlied, hcounts⟩ :=
      applyInitial_counts kind key limitBefore limitAfter hresult
    exact ⟨_, by rw [Viewer.open, happlied]; rfl, hcounts⟩
  · rintro events state fired ⟨notification, server'⟩ ⟨viewer, hviewer, hcounts⟩ hfollows
    rw [hviewer] at hfollows ⊢
    obtain ⟨applied, happlied, hcounts'⟩ := hcounts.notify kind hfollows.1 hfollows.2
    exact ⟨⟨applied.builder, server'⟩, by rw [Viewer.step, happlied], hcounts'⟩

/-- The numbers of a builder that can follow each notification add up all the time. -/
theorem run_counters_consistent (key : α) (limitBefore limitAfter : ℕ) (result : Result α)
    (server : FlatSet α) (hresult : TruthfulResult server result)
    (events : List (Notification α × FlatSet α))
    (h : RunMeets (Viewer.step kind) (Viewer.Follows kind)
      (Viewer.open kind key limitBefore limitAfter result server) events) :
    ∃ viewer, (run (Viewer.step kind)
      (Viewer.open kind key limitBefore limitAfter result server) events).1 = some viewer ∧
      viewer.builder.Consistent := by
  obtain ⟨viewer, hviewer, hcounts⟩ := run_counts kind key limitBefore limitAfter hresult h
  exact ⟨viewer, hviewer, hcounts.consistent⟩

/-- A message of the peer, at a date that grows with its id. -/
def positionOf (msg : ℤ) : MessagePosition := { peer := 1, msg, date := 10 * msg }

/-- The middle one of three ids is removed, for both builders. -/
theorem run_counters_consistent_removal :
    (∃ viewer, (run (Viewer.step sparseIdsSliceBuilder)
      (Viewer.open sparseIdsSliceBuilder 6 2 2
        ⟨some 3, some 0, some 0, FlatSet.ofList [5, 6, 7]⟩ (FlatSet.ofList [5, 6, 7]))
      [(.oneRemoved 6, FlatSet.ofList [5, 7])]).1 = some viewer ∧ viewer.builder.Consistent) ∧
    ∃ viewer, (run (Viewer.step messagesSliceBuilder)
      (Viewer.open messagesSliceBuilder (positionOf 6) 2 2
        ⟨some 3, some 0, some 0, FlatSet.ofList [positionOf 5, positionOf 6, positionOf 7]⟩
        (FlatSet.ofList [positionOf 5, positionOf 6, positionOf 7]))
      [(.oneRemoved (positionOf 6), FlatSet.ofList [positionOf 5, positionOf 7])]).1 =
        some viewer ∧ viewer.builder.Consistent := by
  constructor
  · apply run_counters_consistent
    · refine ⟨fun n hn => (Option.some.inj hn).symm, fun _ => ⟨[], [], ⟨rfl⟩, ?_, ?_⟩⟩
      · exact fun n hn => (Option.some.inj hn).symm
      · exact fun n hn => (Option.some.inj hn).symm
    · have hopen : Viewer.open sparseIdsSliceBuilder 6 2 2
          ⟨some 3, some 0, some 0, FlatSet.ofList [5, 6, 7]⟩ (FlatSet.ofList [5, 6, 7]) =
          some ⟨⟨6, 2, 2, FlatSet.ofList [5, 6, 7], some 3, some 0, some 0⟩,
            FlatSet.ofList [5, 6, 7]⟩ := by decide
      rw [hopen]
      have hthere : (6 : ℤ) ∈ FlatSet.ofList [(5 : ℤ), 6, 7] := by decide
      have hremoved : FlatSet.ofList [(5 : ℤ), 7] = (FlatSet.ofList [5, 6, 7]).remove 6 := by
        decide
      have hwindow : FlatSet.ofList [(5 : ℤ), 6, 7] ≠ ∅ := by decide
      exact ⟨⟨⟨hthere, hremoved⟩, .inl hwindow⟩, trivial⟩
  · apply run_counters_consistent
    · refine ⟨fun n hn => (Option.some.inj hn).symm, fun _ => ⟨[], [], ⟨rfl⟩, ?_, ?_⟩⟩
      · exact fun n hn => (Option.some.inj hn).symm
      · exact fun n hn => (Option.some.inj hn).symm
    · have hopen : Viewer.open messagesSliceBuilder (positionOf 6) 2 2
          ⟨some 3, some 0, some 0, FlatSet.ofList [positionOf 5, positionOf 6, positionOf 7]⟩
          (FlatSet.ofList [positionOf 5, positionOf 6, positionOf 7]) =
          some ⟨⟨positionOf 6, 2, 2, FlatSet.ofList [positionOf 5, positionOf 6, positionOf 7],
            some 3, some 0, some 0⟩,
            FlatSet.ofList [positionOf 5, positionOf 6, positionOf 7]⟩ := by decide
      rw [hopen]
      have hthere : positionOf 6 ∈
          FlatSet.ofList [positionOf 5, positionOf 6, positionOf 7] := by decide
      have hremoved : FlatSet.ofList [positionOf 5, positionOf 7] =
          (FlatSet.ofList [positionOf 5, positionOf 6, positionOf 7]).remove (positionOf 6) := by
        decide
      have hwindow : FlatSet.ofList [positionOf 5, positionOf 6, positionOf 7] ≠ ∅ := by decide
      exact ⟨⟨⟨hthere, hremoved⟩, .inl hwindow⟩, trivial⟩

/-- A new message far behind the window is counted, but not as skipped. -/
theorem new_message_not_skipped :
    ¬ ∀ (key : ℤ) (limitBefore limitAfter : ℕ) (result : Result ℤ) (server : FlatSet ℤ),
      TruthfulResult server result → ∀ events : List (Notification ℤ × FlatSet ℤ),
      RunMeets (Viewer.step sparseIdsSliceBuilder) (Viewer.Told sparseIdsSliceBuilder)
        (Viewer.open sparseIdsSliceBuilder key limitBefore limitAfter result server) events →
      ∃ viewer, (run (Viewer.step sparseIdsSliceBuilder)
        (Viewer.open sparseIdsSliceBuilder key limitBefore limitAfter result server) events).1 =
          some viewer ∧ viewer.builder.Consistent := by
  intro h
  let result : Result ℤ := ⟨some 2, some 0, some 1, FlatSet.ofList [5]⟩
  let update : SliceUpdate ℤ := ⟨some (FlatSet.ofList [30]), ⟨30, ServerMaxMsgId⟩, some 3⟩
  let server : FlatSet ℤ := FlatSet.ofList [5, 20]
  let server' : FlatSet ℤ := FlatSet.ofList [5, 20, 30]
  have hresult : TruthfulResult server result := by
    refine ⟨fun n hn => (Option.some.inj hn).symm, fun _ => ⟨[], [20], ⟨rfl⟩, ?_, ?_⟩⟩
    · exact fun n hn => (Option.some.inj hn).symm
    · exact fun n hn => (Option.some.inj hn).symm
  have hopen : Viewer.open sparseIdsSliceBuilder 5 1 1 result server =
      some ⟨⟨5, 1, 1, FlatSet.ofList [5], some 2, some 0, some 1⟩, server⟩ := by decide
  have htruth : Truthful server' update := by
    constructor
    · intro messages hmessages id
      rw [← Option.some.inj hmessages, FlatSet.mem_ofList, FlatSet.mem_ofList]
      simp only [List.mem_cons, List.not_mem_nil, or_false, Range.Holds, update]
      constructor
      · intro hid
        rw [hid]
        decide
      · omega
    · exact fun n hn => (Option.some.inj hn).symm
  have hgrows : Grows ⟨5, 1, 1, FlatSet.ofList [5], some 2, some 0, some 1⟩ server server'
      update := by
    right
    refine ⟨30, by decide, by decide, ⟨le_rfl, by decide⟩, rfl, fun hnone => ?_⟩
    exact absurd hnone (by decide)
  have hbounds : ∀ x ∈ server', 0 ≤ x ∧ x ≤ ServerMaxMsgId := by
    intro x hx
    rw [FlatSet.mem_ofList] at hx
    simp only [List.mem_cons, List.not_mem_nil, or_false] at hx
    simp only [ServerMaxMsgId]
    omega
  obtain ⟨viewer, hviewer, hconsistent⟩ := h 5 1 1 result server hresult
    [(.updated update, server')] (by rw [hopen]; exact ⟨⟨htruth, hgrows, hbounds⟩, trivial⟩)
  have hafter : some viewer =
      some ⟨⟨5, 1, 1, FlatSet.ofList [5], some 3, some 0, some 1⟩, server'⟩ :=
    hviewer.symm.trans (by decide)
  rw [Option.some_inj] at hafter
  rw [hafter] at hconsistent
  exact absurd (hconsistent 3 0 1 rfl rfl rfl).2.2.2 (by decide)

end TelegramDesktop.Data.SliceBuilder
