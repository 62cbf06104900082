import Chip8.Program.Reading
import Chip8.Proofs.Boot

/-!
# Programs from streams

All that reading a program sees of a stream are the bytes delivered before the
stream ends or fails, and how it ends.  How the bytes are cut into pieces and
how often the stream is interrupted makes no difference.  One byte past the
largest program nothing more is seen, not even a failure.
-/

namespace Chip8

namespace ReadEvent

/-- Whether a stream goes on after an event. -/
def goesOn : ReadEvent → Bool
  | .chunk bytes => !bytes.isEmpty
  | .interrupted => true
  | .failed _ => false

/-- The bytes that an event delivers. -/
def bytes : ReadEvent → List UInt8
  | .chunk bytes => bytes
  | .interrupted | .failed _ => []

/-- The bytes that a stream delivers before it ends or fails. -/
def delivered (events : List ReadEvent) : List UInt8 :=
  (events.takeWhile goesOn).flatMap bytes

/-- The failure that a stream ends with, if it fails. -/
def failure? (events : List ReadEvent) : Option String :=
  match events.find? (!·.goesOn) with
  | some (.failed message) => some message
  | _ => none

variable {event : ReadEvent} {events : List ReadEvent}

theorem delivered_cons (h : event.goesOn = true) :
    delivered (event :: events) = event.bytes ++ delivered events := by
  rw [delivered, List.takeWhile_cons_of_pos h, List.flatMap_cons, delivered]

theorem delivered_cons_of_stop (h : event.goesOn = false) :
    delivered (event :: events) = [] := by
  simp [delivered, h]

theorem length_delivered_le (events more : List ReadEvent) :
    (delivered events).length ≤ (delivered (events ++ more)).length := by
  rw [delivered, delivered, List.takeWhile_append]
  split
  next hall =>
    have hevents : events.takeWhile goesOn = events :=
      (List.takeWhile_prefix goesOn).eq_of_length hall
    rw [hevents, List.flatMap_append, List.length_append]
    exact Nat.le_add_right _ _
  next => exact Nat.le_refl _

theorem failure?_cons (h : event.goesOn = true) :
    failure? (event :: events) = failure? events := by
  simp [failure?, h]

end ReadEvent

namespace Program

open ReadEvent

theorem gather_succ_cons (limit : Nat) {event : ReadEvent}
    (hevent : event.goesOn = true) (events : List ReadEvent) :
    gather (limit + 1) (event :: events) =
      let others := gather (limit + 1 - event.bytes.length) events
      ⟨event.bytes.take (limit + 1) ++ others.bytes, others.failure⟩ := by
  cases event with
  | chunk bytes =>
      cases bytes with
      | nil => cases hevent
      | cons first more => rfl
  | interrupted => rfl
  | failed message => cases hevent

/-- Gathering takes the first bytes that a stream delivers, and sees its failure
if it asks for more than there are. -/
theorem gather_eq (limit : Nat) (events : List ReadEvent) :
    gather limit events =
      ⟨(delivered events).take limit,
        if (delivered events).length < limit then failure? events
        else none⟩ := by
  induction events generalizing limit with
  | nil =>
      cases limit with
      | zero => rfl
      | succ limit => rfl
  | cons event rest ih =>
      cases limit with
      | zero => rfl
      | succ limit =>
          cases hevent : event.goesOn with
          | true =>
              have hlength : (delivered rest).length <
                    limit + 1 - event.bytes.length ↔
                  (event.bytes ++ delivered rest).length < limit + 1 := by
                rw [List.length_append]
                omega
              rw [gather_succ_cons limit hevent, ih, delivered_cons hevent,
                failure?_cons hevent, List.take_append]
              simp only [hlength]
          | false =>
              rw [delivered_cons_of_stop hevent]
              cases event with
              | chunk bytes =>
                  cases bytes with
                  | nil => rfl
                  | cons first more => cases hevent
              | interrupted => cases hevent
              | failed message => rfl

theorem read_of_lt {events : List ReadEvent}
    (h : maxSize < (delivered events).length) :
    read events = ⟨.error (.tooLarge (maxSize + 1)), maxSize + 1⟩ := by
  have hlength : ((delivered events).take (maxSize + 1)).length =
      maxSize + 1 := List.length_take_of_le h
  have hseen : ¬(delivered events).length < maxSize + 1 := Nat.not_lt.mpr h
  simp only [read, gather_eq, ofGathered, if_neg hseen, hlength,
    if_neg (Nat.not_succ_le_self maxSize)]

theorem read_of_failure {events : List ReadEvent} {message : String}
    (h : (delivered events).length ≤ maxSize)
    (hfailure : failure? events = some message) :
    read events = ⟨.error (.reader message), (delivered events).length⟩ := by
  have hshort : (delivered events).length < maxSize + 1 := Nat.lt_succ_of_le h
  simp only [read, gather_eq, ofGathered, if_pos hshort, hfailure,
    List.take_of_length_le (Nat.le_of_lt hshort)]

theorem read_of_no_failure {events : List ReadEvent}
    (h : (delivered events).length ≤ maxSize)
    (hfailure : failure? events = none) :
    read events = ⟨.ok (delivered events), (delivered events).length⟩ := by
  have hshort : (delivered events).length < maxSize + 1 := Nat.lt_succ_of_le h
  simp only [read, gather_eq, ofGathered, if_pos hshort, hfailure,
    List.take_of_length_le (Nat.le_of_lt hshort), if_pos h]

theorem length_le_of_ofGathered {gathered : Gathered} {rom : Program}
    (h : ofGathered gathered = .ok rom) : rom.length ≤ maxSize := by
  simp only [ofGathered] at h
  split at h
  · cases h
  · split at h
    next hsmall =>
      cases h
      exact hsmall
    next => cases h

/-- Reading a program from a stream, and the loader's view of it.  After one
byte past the largest program nothing more is seen, whatever comes after it.
Otherwise all bytes are taken, and the failure of the stream, if it has one, is
the result.  So the result depends on the bytes and on how the stream ends
alone; what is read can be put into any machine, and a stream that just ends is
refused exactly if the machine refuses its bytes. -/
theorem reading_sees_delivered_bytes (events : List ReadEvent) :
    let bytes := delivered events
    let reading := read events
    (3585 ≤ bytes.length →
      reading = ⟨.error (.tooLarge 3585), 3585⟩ ∧
      (Refusal.tooLarge 3585).message =
        "ROM is too large (3585 bytes), max size is 3584 bytes" ∧
      ∀ more, read (events ++ more) = reading) ∧
    (bytes.length ≤ 3584 →
      (∀ message, failure? events = some message →
        reading = ⟨.error (.reader message), bytes.length⟩) ∧
      (failure? events = none → reading = ⟨.ok bytes, bytes.length⟩)) ∧
    (∀ others, delivered others = bytes →
      failure? others = failure? events → read others = reading) ∧
    (∀ rom, reading.result = .ok rom → ∀ m : Machine,
      ∃ loaded, m.loadProgram rom = .ok loaded) ∧
    (failure? events = none → ∀ m : Machine,
      (∃ reason, reading.result = .error reason) ↔
        ∃ reason, (m.loadProgram bytes).error = some reason) := by
  intro bytes reading
  refine ⟨?_, ?_, ?_, ?_, ?_⟩
  · intro hlarge
    have hmore (more : List ReadEvent) :
        maxSize < (delivered (events ++ more)).length :=
      Nat.lt_of_lt_of_le hlarge (length_delivered_le events more)
    refine ⟨read_of_lt hlarge, by decide +kernel, ?_⟩
    intro more
    exact (read_of_lt (hmore more)).trans (read_of_lt hlarge).symm
  · intro hsmall
    constructor
    · intro message hfailure
      exact read_of_failure hsmall hfailure
    · exact read_of_no_failure hsmall
  · intro others hbytes hfailure
    simp only [reading, read, gather_eq, hbytes, hfailure, bytes]
  · intro rom hrom m
    exact ⟨_, m.loadProgram_of_le (length_le_of_ofGathered hrom)⟩
  · intro hfailure m
    by_cases hsmall : bytes.length ≤ maxSize
    · have hread : reading = _ := read_of_no_failure hsmall hfailure
      rw [hread, m.loadProgram_of_le hsmall]
      simp
    · have hlarge := Nat.lt_of_not_le hsmall
      have hread : reading = _ := read_of_lt hlarge
      rw [hread, m.loadProgram_of_lt hlarge]
      simp

/-- What comes after an empty chunk is not seen. -/
example : (read [.chunk [1], .chunk [], .chunk [2]]).result = .ok [1] := rfl

/-- A failure right after the largest program is seen, but neither one after the
end of the stream nor one right after one more byte. -/
theorem reading_sees_delivered_bytes_at_capacity :
    let full : List ReadEvent :=
      [.chunk (List.replicate 3000 1), .interrupted,
        .chunk (List.replicate 584 2)]
    let ended := full ++ [.chunk [], .failed "unplugged"]
    let late := full ++ [.failed "unplugged"]
    let later := full ++ [.chunk [3], .failed "unplugged"]
    read ended = ⟨.ok (delivered full), 3584⟩ ∧
      read late = ⟨.error (.reader "unplugged"), 3584⟩ ∧
      read later = ⟨.error (.tooLarge 3585), 3585⟩ := by
  intro full ended late later
  have hended : (delivered ended).length = 3584 := by decide +kernel
  have hlate : (delivered late).length = 3584 := by decide +kernel
  have hlater : (delivered later).length = 3585 := by decide +kernel
  obtain ⟨-, hends, -⟩ := reading_sees_delivered_bytes ended
  obtain ⟨-, hfails, -⟩ := reading_sees_delivered_bytes late
  obtain ⟨hpasses, -⟩ := reading_sees_delivered_bytes later
  have hread := (hends (Nat.le_of_eq hended)).2 rfl
  have hfailed := (hfails (Nat.le_of_eq hlate)).1 "unplugged" rfl
  rw [hended] at hread
  rw [hlate] at hfailed
  exact ⟨hread, hfailed, (hpasses (Nat.le_of_eq hlater.symm)).1⟩

end Program

end Chip8
