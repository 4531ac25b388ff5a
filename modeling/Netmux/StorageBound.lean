import Netmux.QueueRefinement

/-!
# How large a buffer gets

`makeSpace` grows the vector to `writerIndex_ + len` and keeps the consumed
prefix. It grows only when prefix and free space together are too small, so that
the vector is then shorter than the new content and the prepend area. That
bounds what it grows to by twice the largest content, however much has passed
through the buffer.
-/
namespace Netmux.StorageBound
open ActionRuns BoundedMemory SocketBuffer QueueRefinement

/-- What bytes pass through, with a kernel that fills only the vectors it gets.
`ensureWriteableBytes` alone asks for room that nothing need ever fill. -/
def Passes (b : Buffer) : Operation → Prop
  | .ensureWriteableBytes _ => False
  | .readFd readv => ∀ data, readv b.vectors = .delivered data → data.length ≤ b.vectors.sum
  | .append _ | .retrieve _ | .retrieveAll | .retrieveAsString _ | .retrieveAllAsString => True

/-- The operation leaves at most `peak` bytes readable. -/
def Within (peak : ℕ) (b : Buffer) (op : Operation) : Prop :=
  Passes b op ∧ ∀ t, next step b op = some t → t.readableBytes ≤ peak

/-- No vector is larger than the first one, or than two full loads. -/
def bound (initialSize peak : ℕ) : ℕ :=
  max (initialSize + kCheapPrepend) (2 * peak + kCheapPrepend)

/-- The invariant of a run. -/
structure Moderate (initialSize peak : ℕ) (b : Buffer) : Prop where
  valid : b.Valid
  readable : b.readableBytes ≤ peak
  size : b.buffer.length ≤ bound initialSize peak

/-- What has been appended fits the vector, so that no sum can have wrapped. -/
theorem noWrap_of_append {b b' : Buffer} (h : b.Valid) {data : Bytes}
    (hb : b.append data = .ok b') : b.NoWrap data.length := by
  have hsettles := (h.bounded.ensureWriteableBytes data.length).1
  have hi := h.inside
  have hs := h.sized
  unfold Buffer.append at hb
  cases he : b.ensureWriteableBytes data.length with
  | error fault =>
      rw [he] at hb
      cases hb
  | ok room =>
      rw [he] at hb
      cases hstore : store room.buffer room.writerIndex data with
      | none =>
          simp only [bind, Except.bind, hstore, access, reduceCtorEq] at hb
      | some m =>
          have hsized := (hsettles room he).sized
          have hfits : data.length ≤ room.buffer.length := by
            by_cases hempty : data = []
            · rw [hempty]
              exact Nat.zero_le _
            · exact (Nat.le_add_left _ _).trans (store_bound hstore hempty)
          unfold maxSize at hs hsized
          constructor
          · unfold kCheapPrepend
            omega
          · omega

/-- `ensureWriteableBytes` keeps the vector's size, or grows it to the new end
when prefix and free space are too small. -/
theorem ensureWriteableBytes_size {b b' : Buffer} (h : b.Valid) {len : ℕ} (hw : b.NoWrap len)
    (hb : b.ensureWriteableBytes len = .ok b') :
    b'.buffer.length = b.buffer.length ∨
      (b'.buffer.length = b.writerIndex + len ∧
        b.writableBytes + b.prependableBytes < kCheapPrepend + len) := by
  unfold Buffer.ensureWriteableBytes at hb
  split_ifs at hb
  · unfold Buffer.makeSpace Buffer.resizeTo at hb
    rw [h.space_sum, addSize_eq hw.1, addSize_eq hw.2] at hb
    split_ifs at hb with hgrow
    · cases hb
      exact .inr ⟨length_resize .., hgrow⟩
    · cases hload : load b.buffer b.readerIndex b.readableBytes with
      | none => simp only [bind, Except.bind, hload, access, reduceCtorEq] at hb
      | some moved =>
          cases hstore : store b.buffer kCheapPrepend moved with
          | none => simp only [bind, Except.bind, hload, hstore, access, reduceCtorEq] at hb
          | some m =>
              simp only [bind, Except.bind, hload, hstore, access, pure, Except.pure,
                Except.ok.injEq] at hb
              rw [← hb]
              exact .inl (store_length hstore)
  · cases hb
    exact .inl rfl

theorem append_size {b b' : Buffer} {data : Bytes} (hb : b.append data = .ok b') :
    ∃ room, b.ensureWriteableBytes data.length = .ok room ∧
      b'.buffer.length = room.buffer.length := by
  unfold Buffer.append at hb
  cases he : b.ensureWriteableBytes data.length with
  | error fault =>
      rw [he] at hb
      cases hb
  | ok room =>
      rw [he] at hb
      refine ⟨room, rfl, ?_⟩
      cases hstore : store room.buffer room.writerIndex data with
      | none => simp only [bind, Except.bind, hstore, access, reduceCtorEq] at hb
      | some m =>
          simp only [bind, Except.bind, hstore, access, pure, Except.pure, Except.ok.injEq] at hb
          rw [← hb]
          exact store_length hstore

/-- An `append` that returns with at most `peak` bytes has not grown the vector
past two loads. -/
theorem Moderate.append {initialSize peak : ℕ} {b b' : Buffer} (h : Moderate initialSize peak b)
    {data : Bytes} (hb : b.append data = .ok b') (hpeak : b'.readableBytes ≤ peak) :
    Moderate initialSize peak b' := by
  have hw := noWrap_of_append h.valid hb
  rcases h.valid.append hw with ⟨-, hthrow⟩ | ⟨-, b'', hb'', hv, hc⟩
  · cases hb.symm.trans hthrow
  · cases hb.symm.trans hb''
    obtain ⟨room, hroom, hsize⟩ := append_size hb
    refine ⟨hv, hpeak, ?_⟩
    rw [hsize]
    rcases ensureWriteableBytes_size h.valid hw hroom with hsame | ⟨hgrown, htight⟩
    · rw [hsame]
      exact h.size
    · have hload : b.readableBytes + data.length ≤ peak := by
        rw [← hv.length_content, hc, List.length_append, h.valid.length_content] at hpeak
        exact hpeak
      have hr := h.valid.readableBytes_eq
      have hwritable := h.valid.writableBytes_eq
      have ho := h.valid.ordered
      have hi := h.valid.inside
      rw [hgrown]
      refine Nat.le_trans ?_ (Nat.le_max_right _ _)
      unfold Buffer.prependableBytes at htight
      omega

/-- A call that takes bytes off the front. -/
theorem Moderate.retrieve {initialSize peak : ℕ} {b : Buffer} (h : Moderate initialSize peak b)
    (len : ℕ) : Moderate initialSize peak (b.retrieve len) := by
  obtain ⟨hv, hc⟩ := h.valid.retrieve len
  refine ⟨hv, ?_, ?_⟩
  · have hlen := h.readable
    rw [← h.valid.length_content] at hlen
    rw [← hv.length_content, hc, List.length_drop]
    exact (Nat.sub_le _ _).trans hlen
  · have hsize : (b.retrieve len).buffer = b.buffer := by
      unfold Buffer.retrieve Buffer.retrieveAll
      split_ifs
      · rfl
      · rfl
    rw [hsize]
    exact h.size

theorem Moderate.retrieveAsString {initialSize peak : ℕ} {b : Buffer}
    (h : Moderate initialSize peak b) {len : ℕ} {r : Buffer × Bytes}
    (hr : b.retrieveAsString len = .ok r) : Moderate initialSize peak r.1 := by
  rcases b.retrieveAsString_spec len with ⟨text, -, htext⟩ | hfault | hthrown
  · cases htext.symm.trans hr
    exact h.retrieve len
  · cases hfault.symm.trans hr
  · cases hthrown.symm.trans hr

/-- A read fills what room there is. -/
theorem Moderate.readFd {initialSize peak : ℕ} {b : Buffer} (h : Moderate initialSize peak b)
    {readv : List ℕ → ReadvAnswer}
    (hl : ∀ data, readv b.vectors = .delivered data → data.length ≤ b.vectors.sum)
    {r : Buffer × ReadResult} (hb : b.readFd readv = .ok r) (hpeak : r.1.readableBytes ≤ peak) :
    Moderate initialSize peak r.1 := by
  cases hr : readv b.vectors with
  | failed errno =>
      cases hb.symm.trans (Buffer.readFd_failed hr)
      exact h
  | delivered data =>
      have hfit := hl data hr
      obtain ⟨b', hb', hv, -⟩ := h.valid.readFd hr hfit
      obtain ⟨hstore, -⟩ := h.valid.fill (hfit.trans b.vectors_sum_le)
      have hsize : r.1.buffer.length = b.buffer.length := by
        rw [Buffer.readFd_delivered hr hfit, hstore] at hb
        cases hb
        exact store_length hstore
      cases hb.symm.trans hb'
      exact ⟨hv, hpeak, hsize ▸ h.size⟩

theorem map_error {α β : Type} {r : Except Fault α} {f : α → β} {fault : Fault}
    (h : r.map f = .error fault) : r = .error fault := by
  cases r with
  | error e => exact congrArg Except.error (Except.error.inj h)
  | ok a => cases h

theorem map_ok {α β : Type} {r : Except Fault α} {f : α → β} {y : β}
    (h : r.map f = .ok y) : ∃ a, r = .ok a ∧ f a = y := by
  cases r with
  | error e => cases h
  | ok a => exact ⟨a, rfl, Except.ok.inj h⟩

theorem retrieveAsString_lengthError {b left : Buffer} {len : ℕ}
    (h : b.retrieveAsString len = .error (.lengthError left)) : left = b := by
  rcases b.retrieveAsString_spec len with ⟨text, -, htext⟩ | hfault | hthrown
  · cases htext.symm.trans h
  · cases hfault.symm.trans h
  · cases hthrown.symm.trans h
    rfl

/-- A call that throws leaves the buffer it found. -/
theorem perform_lengthError {b left : Buffer} (h : b.Valid) {op : Operation} (ha : Passes b op)
    (hp : perform b op = .error (.lengthError left)) : left = b := by
  cases op with
  | append data => exact (h.bounded.append data).2 left (map_error hp)
  | ensureWriteableBytes len => exact (h.bounded.ensureWriteableBytes len).2 left (map_error hp)
  | retrieve len => cases hp
  | retrieveAll => cases hp
  | retrieveAsString len => exact retrieveAsString_lengthError (map_error hp)
  | retrieveAllAsString => exact retrieveAsString_lengthError (map_error hp)
  | readFd readv =>
      have hread := map_error hp
      cases hr : readv b.vectors with
      | failed errno => cases hread.symm.trans (Buffer.readFd_failed hr)
      | delivered data =>
          obtain ⟨b', hb', -⟩ := h.readFd hr (ha data hr)
          cases hread.symm.trans hb'

theorem perform_moderate {initialSize peak : ℕ} {b : Buffer} (h : Moderate initialSize peak b)
    {op : Operation} (ha : Passes b op) {r : Buffer × Outcome} (hp : perform b op = .ok r)
    (hpeak : r.1.readableBytes ≤ peak) : Moderate initialSize peak r.1 := by
  cases op with
  | append data =>
      obtain ⟨b', hb', rfl⟩ := map_ok hp
      exact h.append hb' hpeak
  | ensureWriteableBytes len => cases ha
  | retrieve len =>
      cases hp
      exact h.retrieve len
  | retrieveAll =>
      cases hp
      have hall := h.retrieve b.readableBytes
      rwa [Buffer.retrieve, if_neg (Nat.lt_irrefl _)] at hall
  | retrieveAsString len =>
      obtain ⟨q, hq, rfl⟩ := map_ok hp
      exact h.retrieveAsString hq
  | retrieveAllAsString =>
      obtain ⟨q, hq, rfl⟩ := map_ok hp
      exact h.retrieveAsString hq
  | readFd readv =>
      obtain ⟨q, hq, rfl⟩ := map_ok hp
      exact h.readFd ha hq hpeak

theorem step_moderate {initialSize peak : ℕ} (b : Buffer) (op : Operation) (t : Buffer)
    (h : Moderate initialSize peak b) (ha : Within peak b op) (ht : next step b op = some t) :
    Moderate initialSize peak t := by
  obtain ⟨hpasses, hpeak⟩ := ha
  have hreadable := hpeak t ht
  obtain ⟨r, hstep, rfl⟩ := Option.map_eq_some_iff.mp ht
  unfold step at hstep
  cases hp : perform b op with
  | error fault =>
      rw [hp] at hstep
      cases fault with
      | outOfBounds => cases hstep
      | lengthError left =>
          cases hstep
          exact perform_lengthError h.valid hpasses hp ▸ h
  | ok q =>
      rw [hp] at hstep
      cases hstep
      exact perform_moderate h hpasses hp hreadable

/-- The vector of `Buffer(initialSize)` stays within `bound` all along a run that
never leaves more than `peak` bytes readable. -/
theorem storage_bounded {initialSize peak : ℕ} (hsize : initialSize + kCheapPrepend < 2 ^ 63)
    {b₀ : Buffer} (hb : Buffer.create initialSize = some b₀) {ops : List Operation}
    (h : Meets (next step) (Within peak) b₀ ops) :
    Throughout (next step) (fun b => b.buffer.length ≤ bound initialSize peak) b₀ ops := by
  obtain ⟨hv, hc⟩ := Buffer.create_valid (hsize.trans (by decide)) hb
  have hempty : b₀.readableBytes = 0 := by
    rw [← hv.length_content, hc]
    rfl
  have hlength : b₀.buffer.length = initialSize + kCheapPrepend := by
    simp only [Buffer.create, addSize_eq (hsize.trans (by decide : 2 ^ 63 < 2 ^ 64))] at hb
    split_ifs at hb
    cases hb
    exact List.length_replicate
  have hstart : Moderate initialSize peak b₀ :=
    ⟨hv, hempty ▸ Nat.zero_le _, hlength ▸ Nat.le_max_left _ _⟩
  exact throughout_of_meets step_moderate (fun b hm => hm.size) hstart h

theorem within_of_next {peak : ℕ} {b t : Buffer} {op : Operation} (ha : Passes b op)
    (hs : next step b op = some t) (ht : t.readableBytes ≤ peak) : Within peak b op :=
  ⟨ha, fun _ hu => Option.some.inj (hs.symm.trans hu) ▸ ht⟩

/-- Seven bytes pass through, six at a time at most, and the vector grows once. -/
theorem storage_bounded_sample :
    Throughout (next step) (fun b => b.buffer.length ≤ bound 4 6)
      ⟨8, 8, List.replicate 12 0⟩ sampleCalls := by
  apply storage_bounded (show 4 + kCheapPrepend < 2 ^ 63 by decide) rfl
  refine Meets.cons (within_of_next trivial rfl (by decide)) rfl ?_
  refine Meets.cons (within_of_next trivial rfl (by decide)) rfl ?_
  refine Meets.cons (within_of_next trivial rfl (by decide)) rfl ?_
  exact Meets.cons (within_of_next trivial rfl (by decide)) rfl trivial

end Netmux.StorageBound
