import Terminald.Proofs.Output

namespace Terminald.Session
open Machine Protocol

/-- The output bytes in some messages. -/
def heft (ms : List ServerMessage) : Nat := (ms.flatMap payload).length

/-- No message has more than the reader's buffer. -/
def Light (ms : List ServerMessage) : Prop := ∀ m ∈ ms, (payload m).length ≤ Pty.bufferSize

/-- What the driver holds, or has let go of at its end. -/
def Driver.heft (d : Driver) : Nat := if d.over then Pty.bufferSize else Session.heft d.held

/-- What the reader holds, or has let go of at the end of its loop. -/
def Reader.heft (r : Reader) : Nat := if r.looping then Session.heft r.held else Pty.bufferSize

/-- What was read and is not sent is held by the driver, the channel and the reader, each of which
holds no more than it can. -/
structure Backed (s : State) : Prop where
  driver : Light s.driver.held
  channel : Light s.channel.items
  reader : Light s.reader.held
  owed : (bytesRead s.reads).length ≤ (outputSent s.sent).length + s.driver.heft +
    heft s.channel.items + s.reader.heft

section Hefts
variable {s t : State} {m : ServerMessage} {ms ns : List ServerMessage}

theorem heft_append (ms ns : List ServerMessage) : heft (ms ++ ns) = heft ms + heft ns := by
  simp [heft]

theorem heft_single (m : ServerMessage) : heft [m] = (payload m).length := by
  simp [heft]

theorem Light.heft_le (h : Light ms) : heft ms ≤ ms.length * Pty.bufferSize := by
  induction ms with
  | nil => simp [heft]
  | cons m ms ih =>
    have hm := h m List.mem_cons_self
    have hms := ih (fun n hn => h n (List.mem_cons_of_mem m hn))
    have hcons : heft (m :: ms) = heft [m] + heft ms := heft_append [m] ms
    rw [hcons,heft_single,List.length_cons,Nat.succ_mul]
    omega

theorem light_single : Light [m] ↔ (payload m).length ≤ Pty.bufferSize := by
  simp [Light]

theorem driver_held_one (d : Driver) : d.held.length ≤ 1 := by
  cases d <;> simp [Driver.held]

theorem reader_held_one (r : Reader) : r.held.length ≤ 1 := by
  cases r <;> simp [Reader.held]

/-- One buffer is enough for each of them. -/
theorem driver_heft_le (h : Light s.driver.held) : s.driver.heft ≤ Pty.bufferSize := by
  unfold Driver.heft
  split
  · exact Nat.le_refl _
  · have := h.heft_le
    have := driver_held_one s.driver
    have := Nat.mul_le_mul_right Pty.bufferSize this
    omega

theorem reader_heft_le (h : Light s.reader.held) : s.reader.heft ≤ Pty.bufferSize := by
  unfold Reader.heft
  split
  · have := h.heft_le
    have := reader_held_one s.reader
    have := Nat.mul_le_mul_right Pty.bufferSize this
    omega
  · exact Nat.le_refl _

theorem over_heft {d : Driver} (h : d.over = true) : d.heft = Pty.bufferSize := by
  simp [Driver.heft,h]

theorem bytesRead_snoc (reads : List (Pty.Attempt Pty.Chunk)) (a : Pty.Attempt Pty.Chunk) :
    bytesRead (reads ++ [a]) = bytesRead reads ++ bytesOf a := by
  simp [bytesRead]

theorem read_fits {a : Pty.Attempt Pty.Chunk} {data : Bytes} (h : Pty.read a = some (.ok data)) :
    data.length ≤ Pty.bufferSize := by
  unfold Pty.read at h
  split at h
  · cases h
  · split at h
    · cases h
    · rename_i chunk _
      cases h
      exact chunk.fits
    · split at h
      · cases h
        exact Nat.zero_le _
      · cases h

end Hefts

section Steps
variable {s t : State} {json : Json} {l : Label}

/-- A step that moves no message of the reader's; its driver may be through after it. -/
theorem Backed.keep (h : Backed s) (hr : t.reads = s.reads) (hs : outputSent t.sent = outputSent s.sent)
    (hc : t.channel = s.channel) (hk : t.reader = s.reader)
    (hd : t.driver.held = s.driver.held ∧ t.driver.over = s.driver.over ∨ t.driver.held = [] ∧ t.driver.over = true) :
    Backed t := by
  have hle : s.driver.heft ≤ t.driver.heft := by
    rcases hd with ⟨hheld,hover⟩ | ⟨_,hover⟩
    · simp [Driver.heft,hheld,hover]
    · rw [over_heft hover]
      exact driver_heft_le h.driver
  refine ⟨?_,hc ▸ h.channel,hk ▸ h.reader,?_⟩
  · rcases hd with ⟨hheld,_⟩ | ⟨hheld,_⟩
    · exact hheld ▸ h.driver
    · rw [hheld]
      exact fun m hm => by cases hm
  · have := h.owed
    rw [hr,hs,hc,hk]
    omega

/-- What the reader does without an output message in its hands, before and after. -/
theorem Backed.reads (h : Backed s) (hr : bytesRead t.reads = bytesRead s.reads) (hs : t.sent = s.sent)
    (hc : t.channel = s.channel) (hd : t.driver = s.driver) (hl : Light t.reader.held)
    (hk : s.reader.heft ≤ t.reader.heft) : Backed t := by
  refine ⟨hd ▸ h.driver,hc ▸ h.channel,hl,?_⟩
  have := h.owed
  rw [hr,hs,hc,hd]
  omega

theorem bytesOf_none {a : Pty.Attempt Pty.Chunk} (h : ∀ data, Pty.read a = some (.ok data) → data = []) :
    bytesOf a = [] := by
  unfold bytesOf
  split
  · exact h _ ‹_›
  · rfl

theorem outputSent_snoc (frames : List Frame) (f : Frame) :
    outputSent (frames ++ [f]) = outputSent frames ++ f.message.toList.flatMap payload := by
  rw [outputSent,queuedSent_snoc,List.flatMap_append]
  rfl

/-- A message of the reader's goes into the channel, or is dropped with it. -/
theorem posted_backed (h : Backed s) {m : ServerMessage} {c : Queue ServerMessage channelCapacity} (accepted : Bool)
    (hr : s.reader = .posting m) (hc : c.items = if accepted then s.channel.items ++ [m] else s.channel.items) :
    Backed ({ s with channel := c }.posted m accepted) := by
  have hm : Light [m] := by simpa [hr] using h.reader
  have howed := h.owed
  have hlight : Light c.items := by
    rw [hc]
    split
    · exact fun n hn => (List.mem_append.mp hn).elim (h.channel n) (hm n)
    · exact h.channel
  have hheft : heft c.items = heft s.channel.items + if accepted then (payload m).length else 0 := by
    rw [hc]
    split
    · rw [heft_append,heft_single]
    · rfl
  refine ⟨by simpa using h.driver,by simpa using hlight,by simp [Light],?_⟩
  simp only [posted_reads,posted_sent,posted_driver,posted_channel]
  rw [hheft]
  rw [hr] at howed
  cases m with
  | output data =>
    have hdata : data.length ≤ Pty.bufferSize := hm _ List.mem_cons_self
    cases accepted with
    | true => simpa [State.posted,Reader.heft,Reader.looping,heft,payload,Nat.add_assoc] using howed
    | false =>
      simp only [Reader.heft,Reader.looping,if_true,held_posting,heft_single,payload] at howed
      simp only [State.posted,State.leaveLoop,Reader.heft,Reader.looping,Bool.false_eq_true,if_false]
      omega
  | error text | exited code =>
    cases accepted <;> simpa [State.posted,Reader.heft,Reader.looping,heft,payload] using howed

theorem move_backed (h : Backed s) (hstart : s.driver = .spawning → s = start) (hm : Move json s l t) :
    Backed t := by
  cases hm with
  | spawned hd =>
    rw [hstart hd]
    exact ⟨by simp [Light],by simp [Light,start],by simp [Light],by simp [start,bytesRead]⟩
  | spawnFailed hd | receiveFailed hd | exhausted hd hr hc | writeFailed hd ha | resizeFailed hd hi
  | unreplied hd | undelivered hd | finished hd hp ht | dropped hs hr hd =>
    exact h.keep rfl rfl rfl rfl (.inr ⟨rfl,rfl⟩)
  | @readAgain a hr ha =>
    refine h.reads ?_ rfl rfl rfl h.reader (Nat.le_refl _)
    rw [bytesRead_snoc,bytesOf_none (by simp [ha]),List.append_nil]
  | @readEnd a hr ha =>
    refine h.reads ?_ rfl rfl rfl (fun m hm => by cases hm) (reader_heft_le h.reader)
    simp only [State.leaveLoop]
    rw [bytesRead_snoc,bytesOf_none (by simp [ha]),List.append_nil]
  | @readData a data hr ha hne =>
    have howed := h.owed
    refine ⟨h.driver,h.channel,light_single.mpr (read_fits ha),?_⟩
    rw [hr] at howed
    have hread : bytesOf a = data := by simp [bytesOf,ha]
    simp only [bytesRead_snoc,hread,List.length_append]
    simp only [Reader.heft,Reader.looping,if_true,held_reading,held_posting,heft_single,payload] at howed ⊢
    simp only [heft,List.flatMap_nil,List.length_nil] at howed ⊢
    omega
  | @readFailed a e hr ha =>
    refine h.reads ?_ rfl rfl rfl (light_single.mpr (Nat.zero_le _)) (reader_heft_le h.reader)
    simp only [bytesRead_snoc]
    rw [bytesOf_none (by simp [ha]),List.append_nil]
  | posted hr ho hp => exact posted_backed h true hr (Queue.push_items hp)
  | unposted hr ho => exact posted_backed h false hr rfl
  | waited hr hw =>
    exact h.reads rfl rfl rfl rfl (light_single.mpr (Nat.zero_le _)) (reader_heft_le h.reader)
  | @took m rest hd hc =>
    have howed := h.owed
    have hlight := h.channel
    rw [hc] at hlight
    refine ⟨light_single.mpr (hlight m List.mem_cons_self),?_,h.reader,?_⟩
    · simp only [Queue.drop_items,hc]
      exact fun n hn => hlight n (List.mem_cons_of_mem m hn)
    · have hcons : heft (m :: rest) = heft [m] + heft rest := heft_append [m] rest
      rw [hc,hd,hcons] at howed
      simp only [Queue.drop_items,hc]
      simp only [Driver.heft,over_select,over_sending,held_select,held_sending,Bool.false_eq_true,if_false,
        List.drop_one,List.tail_cons] at howed ⊢
      simp only [heft,List.flatMap_nil,List.length_nil] at howed ⊢
      omega
  | @received msg hd =>
    refine h.keep (by simp) (by simp) (by simp) (by simp) ?_
    cases ho : ({ s with received := s.received ++ [msg] }.handle json msg).driver.over with
    | true => exact .inr ⟨handle_held _ _ _,rfl⟩
    | false => exact .inl ⟨(handle_held _ _ _).trans (by simp [hd]),by simp [hd]⟩
  | @delivered m hd =>
    have howed := h.owed
    have hm : (payload m).length ≤ Pty.bufferSize := by
      have hlight := h.driver
      rw [hd] at hlight
      exact light_single.mp hlight
    refine ⟨by simp [Light],by simpa using h.channel,by simpa using h.reader,?_⟩
    rw [hd] at howed
    simp only [delivered_reads,delivered_sent,delivered_channel,delivered_reader,outputSent_snoc,List.length_append,
      Frame.message,Option.toList_some,List.flatMap_singleton]
    simp only [Driver.heft,over_sending,held_sending,heft_single,Bool.false_eq_true,if_false] at howed
    omega
  | replied hd =>
    exact h.keep rfl (by simp [outputSent_snoc,Frame.message]) rfl rfl (.inl ⟨by simp [hd],by simp [hd]⟩)
  | writeAgain hd ha => exact h
  | wrote hd ha hk => exact h.keep rfl rfl rfl rfl (.inl ⟨by simp [hd],by simp [hd]⟩)
  | resized hd hi => exact h.keep rfl rfl rfl rfl (.inl ⟨by simp [hd],by simp [hd]⟩)
  | process hp hs => exact h.keep rfl rfl rfl rfl (.inl ⟨rfl,rfl⟩)

theorem start_backed : Backed start where
  driver := List.forall_mem_nil _
  channel := List.forall_mem_nil _
  reader := List.forall_mem_nil _
  owed := Nat.zero_le _

theorem reachable_backed (hr : (system json).Reachable s) : Backed s := by
  refine hr.invariant start_backed ?_
  intro s l t hs h hstep
  exact move_backed h (spawning_start hs) (step_move hstep)

end Steps

/-- However slowly a client takes what is sent, and however much its command writes, a session has no
more in its hands than a channel of full buffers, one for the reader and one for the driver. -/
theorem backlog_bounded {json : Json} {s : State} (hr : (system json).Reachable s) :
    (bytesRead s.reads).length ≤
      (outputSent s.sent).length + (channelCapacity + 2) * Pty.bufferSize := by
  have h := reachable_backed hr
  have hd := driver_heft_le h.driver
  have hk := reader_heft_le h.reader
  have hc := Nat.le_trans h.channel.heft_le (Nat.mul_le_mul_right Pty.bufferSize s.channel.bound)
  have howed := h.owed
  rw [Nat.add_mul]
  omega

/-- The socket is not taking the first two bytes; another two are in the channel, two more are read. -/
def slowRun : List Label :=
  [.spawn (.ok 71),.read (.result (.ok ⟨[97,98],by decide⟩)),.post,.recv,
   .read (.result (.ok ⟨[99,100],by decide⟩)),.post,
   .read (.result (.ok ⟨[101,102],by decide⟩))]

theorem backlog_bounded_slow :
    ∃ s, (system ⟨fun _ => .error "",fun _ => .error ""⟩).Reachable s ∧ outputSent s.sent = [] ∧
      (bytesRead s.reads).length = 6 ∧
      (bytesRead s.reads).length ≤
        (outputSent s.sent).length + (channelCapacity + 2) * Pty.bufferSize := by
  have hr := System.reachable_end (m := system ⟨fun _ => .error "",fun _ => .error ""⟩) slowRun rfl
  exact ⟨_,hr,rfl,rfl,backlog_bounded hr⟩

end Terminald.Session
