/-
  SingleFlight.Proofs.Posting — the request that publishes an event.

  The name of an event is posted in a record.  A record that is too long for a
  body is refused unread (`Fits`).  Any other is read back, whatever the name;
  and what the service makes of the name hangs on what is left of it when the
  white space at its ends is gone.  If nothing is left the request is refused.
  Otherwise the event is published that this name stands for, whose shown name
  stands for the same event.

  Main results:
    * `trim_padded`, `trim_isEmpty_iff` — white space at the ends does not count.
    * `length_postOf` — how long the body is in which a name is posted.
    * `accept_postOf` — what the service makes of a name that is posted.
-/
import Mathlib.Data.List.TakeWhile
import SingleFlight.Proofs.ReadBack
import SingleFlight.Service.Server

namespace SingleFlight.Text

/-! ## §1. White space at the ends. -/

/-- The text is white space, or empty. -/
def IsBlank (s : String) : Prop := ∀ c ∈ s.toList, isBlank c = true

instance (s : String) : Decidable (IsBlank s) :=
  decidable_of_iff (s.toList.all isBlank = true) List.all_eq_true

/-- What is left when white space at the front is gone is white space just if the whole is. -/
theorem all_dropWhile_iff {p : Char → Bool} (cs : List Char) :
    (∀ c ∈ cs.dropWhile p, p c = true) ↔ ∀ c ∈ cs, p c = true := by
  constructor
  · intro rest c member
    rw [← List.takeWhile_append_dropWhile (p := p) (l := cs)] at member
    rcases List.mem_append.mp member with front | behind
    · exact List.mem_takeWhile_imp front
    · exact rest c behind
  · exact fun all c member => all c ((List.dropWhile_suffix p).mem member)

/-- **Nothing is left of a text just if it is white space.** -/
theorem trim_isEmpty_iff (s : String) : (trim s).isEmpty = true ↔ IsBlank s := by
  have none : (trim s).isEmpty = true
      ↔ (s.toList.dropWhile isBlank).reverse.dropWhile isBlank = [] := by
    rw [trim, String.isEmpty_iff, ← String.toList_inj, String.toList_ofList]
    exact List.reverse_eq_nil_iff
  rw [none, List.dropWhile_eq_nil_iff, IsBlank, ← all_dropWhile_iff s.toList]
  simp only [List.mem_reverse]

/-- **White space around a text does not count.** -/
theorem trim_padded {before after : String} (blank : IsBlank before) (blank' : IsBlank after) (s : String) :
    trim (before ++ s ++ after) = trim s := by
  have front : (before ++ s ++ after).toList.dropWhile isBlank
      = (s.toList ++ after.toList).dropWhile isBlank := by
    rw [String.toList_append, String.toList_append, List.append_assoc]
    exact List.dropWhile_append_of_pos blank
  have behind (cs : List Char) : (cs ++ after.toList).reverse.dropWhile isBlank = cs.reverse.dropWhile isBlank := by
    rw [List.reverse_append]
    exact List.dropWhile_append_of_pos fun c member => blank' c (List.mem_reverse.mp member)
  rw [trim, trim, front, List.dropWhile_append]
  split
  next gone =>
    rw [List.isEmpty_iff.mp gone, List.dropWhile_eq_nil_iff.mpr blank']
  next left => rw [behind]

end SingleFlight.Text

namespace SingleFlight.Service

/-! ## §2. The request. -/

namespace EventRequest

variable (r : EventRequest)

theorem refusal?_of_blank (blank : Text.IsBlank r.event) :
    r.refusal? = some "Event name cannot be empty" :=
  if_pos ((Text.trim_isEmpty_iff _).mpr blank)

theorem refusal?_of_named (named : ¬ Text.IsBlank r.event) : r.refusal? = none :=
  if_neg (mt (Text.trim_isEmpty_iff _).mp named)

end EventRequest

namespace Request

variable {r r' : Request}

/-- Where a request leads is a matter of its method and its target. -/
theorem route_eq (method : r.method = r'.method) (target : r.target = r'.target) : r.route = r'.route := by
  simp only [route, path, method, target]

theorem declaresJson_eq (headers : r.headers = r'.headers) : r.declaresJson = r'.declaresJson := by
  simp only [declaresJson, header?, headers]

end Request

/-- The request that posts the name of an event. -/
def postOf (event : String) : Request where
  method := "POST"
  target := "/events"
  headers := [("content-type", "application/json")]
  body := Json.octets (Json.written "event" (Json.quoted event))

/-- The request for the quote. -/
def getValue : Request := ⟨"GET", "/value", [], []⟩

theorem route_postOf (event : String) : (postOf event).route = .endpoint .events true := by
  have same : (postOf event).route = Request.route ⟨"POST", "/events", [], []⟩ := Request.route_eq rfl rfl
  exact same.trans (by decide +kernel)

theorem route_getValue : getValue.route = .endpoint .value true := by decide +kernel

theorem declaresJson_postOf (event : String) : (postOf event).declaresJson = true := by
  have same : (postOf event).declaresJson
      = Request.declaresJson ⟨"", "", [("content-type", "application/json")], []⟩ := Request.declaresJson_eq rfl
  exact same.trans (by decide +kernel)

/-- A name has as many octets when it is posted as its characters have when they are escaped, and the record
around it has twelve. -/
theorem length_postOf (event : String) :
    (postOf event).body.length = (Json.octets (event.toList.flatMap Json.escape)).length + 12 := by
  have body : (postOf event).body
      = Json.octets ('\x7b' :: ((Json.quoted "event").toList ++ [':', '"']))
        ++ Json.octets (event.toList.flatMap Json.escape) ++ Json.octets ['"', '\x7d'] := by
    rw [postOf, Json.written, Json.toList_quoted event]
    simp only [Json.octets_cons, Json.octets_append, List.cons_append, List.append_assoc, List.nil_append,
      Json.octets_nil, List.append_nil]
  have front : (Json.octets ('\x7b' :: ((Json.quoted "event").toList ++ [':', '"']))).length = 10 := by decide
  have behind : (Json.octets ['"', '\x7d']).length = 2 := rfl
  rw [body, List.length_append, List.length_append, front, behind]
  omega

/-- The record that posts a name is short enough for a body that is read. -/
def Fits (event : String) : Prop := (postOf event).body.length ≤ Server.bodyLimit

instance (event : String) : Decidable (Fits event) := inferInstanceAs (Decidable (_ ≤ _))

/-- A part of a name fits if the whole does. -/
theorem Fits.of_padded {before event after : String} (h : Fits (before ++ event ++ after)) : Fits event := by
  rw [Fits, length_postOf] at h ⊢
  simp only [String.toList_append, List.flatMap_append, Json.octets_append, List.length_append] at h
  omega

/-- A name that has as many characters as a body may have octets does not fit. -/
theorem not_fits_of_length {event : String} (long : Server.bodyLimit ≤ event.toList.length) : ¬ Fits event := by
  have octets := Json.length_le_octets_escaped event.toList
  rw [Fits, length_postOf]
  omega

/-- **A name that is posted is read back**, whatever it is, unless the body is too long. -/
theorem readBody_postOf (event : String) : Server.readBody EventRequest.field (postOf event)
    = if Fits event then .ok ⟨event⟩ else .error ⟨413, none⟩ := by
  have reads (more : Json.Octets) : EventRequest.field.read
      (Json.octets (Json.quoted event).toList ++ more) = .ok (⟨event⟩, more) := by
    simp only [EventRequest.field, Json.readString_quoted]
    rfl
  have body : (postOf event).body
      = Json.octets (Json.written EventRequest.field.name (Json.quoted event)) := rfl
  rw [Server.readBody, if_pos (declaresJson_postOf event)]
  refine if_congr Iff.rfl ?_ rfl
  rw [body, Json.readFront_written reads]
  rfl

/-! ## §3. The answer. -/

/-- A name that is posted makes an event: the body is not too long, and there is more to it than white space. -/
def IsEvent (event : String) : Prop := Fits event ∧ ¬ Text.IsBlank event

instance (event : String) : Decidable (IsEvent event) := inferInstanceAs (Decidable (_ ∧ _))

namespace Server

/-- **What the service makes of a name that is posted.**  A body that is too long is refused, and so is white
space, and nothing is published.  Otherwise the event is published that the name stands for, and acknowledged by
its shown name. -/
theorem accept_postOf (s : Server) (shown : Instant → String) (name event : String) :
    s.accept shown name (postOf event)
      = if IsEvent event then (s.move (.publish (EventRequest.signal ⟨event⟩)), some ⟨200, some (ackDocument
          ("Event '" ++ (EventRequest.signal ⟨event⟩).name ++ "' published"))⟩)
        else (s, some (if Fits event then ⟨400, some (errorDocument "Event name cannot be empty")⟩
          else ⟨413, none⟩)) := by
  rw [accept, route_postOf]
  simp only [serve, readBody_postOf]
  by_cases fits : Fits event
  · rw [if_pos fits, if_pos fits]
    by_cases blank : Text.IsBlank event
    · rw [if_neg fun made => made.2 blank]
      simp only [publish, EventRequest.refusal?_of_blank ⟨event⟩ blank]
      rfl
    · rw [if_pos ⟨fits, blank⟩]
      simp only [publish, EventRequest.refusal?_of_named ⟨event⟩ blank]
      rfl
  · rw [if_neg fits, if_neg fits, if_neg fun made => fits made.1]
    rfl

/-- A name whose body is not too long is refused with 400 just if it is white space. -/
theorem refuses_iff (s : Server) (shown : Instant → String) (name : String) {event : String} (fits : Fits event) :
    (s.accept shown name (postOf event)).2.map (·.status) = some 400 ↔ Text.IsBlank event := by
  rw [accept_postOf]
  by_cases blank : Text.IsBlank event
  · rw [if_neg fun made => made.2 blank, if_pos fits]
    exact iff_of_true rfl blank
  · rw [if_pos ⟨fits, blank⟩]
    exact iff_of_false (by simp) blank

/-- **White space around a name that is posted does not count**, unless it makes the body too long. -/
theorem accept_padded (s : Server) (shown : Instant → String) (name event : String) {before after : String}
    (blank : Text.IsBlank before) (blank' : Text.IsBlank after) (fits : Fits (before ++ event ++ after)) :
    s.accept shown name (postOf (before ++ event ++ after)) = s.accept shown name (postOf event) := by
  have same : Text.trim (before ++ event ++ after) = Text.trim event := Text.trim_padded blank blank' event
  have isBlank : Text.IsBlank (before ++ event ++ after) ↔ Text.IsBlank event := by
    rw [← Text.trim_isEmpty_iff, ← Text.trim_isEmpty_iff, same]
  have isEvent : IsEvent (before ++ event ++ after) ↔ IsEvent event :=
    and_congr (iff_of_true fits fits.of_padded) (not_congr isBlank)
  have signal : EventRequest.signal ⟨before ++ event ++ after⟩ = EventRequest.signal ⟨event⟩ :=
    congrArg Signal.ofName same
  rw [accept_postOf, accept_postOf, signal, if_pos fits, if_pos fits.of_padded]
  exact if_congr isEvent rfl rfl

end Server

end SingleFlight.Service
