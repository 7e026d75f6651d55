import FormatEdits.Proofs.Json.RoundTrip
import FormatEdits.Proofs.Text.Utf8
import FormatEdits.Web.Service

namespace FormatEdits.Web

open Text.Utf8 (encode encodeChar)

/-- The request asks an endpoint at its place and in its own way. -/
structure Request.Asks (r : Request) (e : Endpoint) : Prop where
  method : r.method ∈ e.methods
  target : Endpoint.atPath? (Target.path r.target) = some e

/-- The body of the request is announced as data, and written from a value in some layout. -/
structure Request.Carries (r : Request) (v : Json) : Prop where
  announced : r.hasData = true
  written : ∃ l, r.body = encode (Json.write l v)

section Bodies

theorem encodeChar_ascii {c : Char} (h : c.toNat < 0x80) :
    encodeChar c = [UInt8.ofNat c.toNat] := by
  rw [encodeChar,if_pos h]

/-- A text that starts with two characters of one byte, neither of them null, shows its form. -/
theorem ofBytes?_encode {a b : Char} (ha : 0 < a.toNat ∧ a.toNat < 0x80)
    (hb : 0 < b.toNat ∧ b.toNat < 0x80) (r : Text) :
    Text.ofBytes? (encode (a :: b :: r)) = some (a :: b :: r) := by
  have hne {n : Nat} (h : 0 < n ∧ n < 0x80) : UInt8.ofNat n ≠ 0 ∧ UInt8.ofNat n ≠ 0xEF := by
    have hn : (UInt8.ofNat n).toNat = n := Text.Utf8.toNat_ofNat (by omega)
    have hnull : n ≠ (0 : UInt8).toNat := Nat.pos_iff_ne_zero.mp h.1
    have hmark : n ≠ (0xEF : UInt8).toNat := Nat.ne_of_lt (Nat.lt_trans h.2 (by decide))
    exact ⟨fun he => hnull (he ▸ hn.symm),fun he => hmark (he ▸ hn.symm)⟩
  have hbytes : encode (a :: b :: r) =
      UInt8.ofNat a.toNat :: UInt8.ofNat b.toNat :: encode r := by
    simp [encode,encodeChar_ascii ha.2,encodeChar_ascii hb.2]
  have hmark : Text.Utf8.byteOrderMark.isPrefixOf (encode (a :: b :: r)) = false := by
    have hfirst : ((0xEF : UInt8) == UInt8.ofNat a.toNat) = false :=
      beq_eq_false_iff_ne.mpr (hne ha).2.symm
    rw [hbytes,Text.Utf8.byteOrderMark,List.isPrefixOf,hfirst,Bool.false_and]
  rw [Text.ofBytes?,if_neg (by simp [hmark])]
  conv_lhs => rw [hbytes,Text.EncodingForm.of_eq_singles (hne ha).1 (hne hb).1,← hbytes]
  rw [Text.EncodingForm.decode?,Text.Utf8.decode_encode]
  rfl

theorem write_object (l : Json.Layout) (m : Text × Json) (ms : List (Text × Json)) :
    ∃ b r, Json.write l (.object (m :: ms)) = '\x7b' :: b :: r ∧ (b = '"' ∨ b = '\n') := by
  obtain ⟨name,value⟩ := m
  obtain ⟨_ | width⟩ := l
  · exact ⟨'"',_,rfl,.inl rfl⟩
  · exact ⟨'\n',_,rfl,.inr rfl⟩

theorem members_of_carries {r : Request} {m : Text × Json} {ms : List (Text × Json)}
    (h : r.Carries (.object (m :: ms)))
    (hregular : Json.Regular Json.depthLimit (.object (m :: ms))) :
    r.members = .ok (m :: ms) := by
  obtain ⟨l,hbody⟩ := h.written
  obtain ⟨b,t,ht,hb⟩ := write_object l m ms
  have hvalue : r.value = .ok (.object (m :: ms)) := by
    have hread := Json.read_write hregular l
    rw [ht] at hread
    have hsecond : 0 < b.toNat ∧ b.toNat < 0x80 := by rcases hb with rfl | rfl <;> decide
    rw [Request.value,hbody,ht,ofBytes?_encode (by decide) hsecond]
    exact congrArg (Except.mapError Refusal.ofFault) hread
  have hne : r.body ≠ [] := by
    rw [hbody,ht]
    simp [encode,encodeChar_ascii]
  rw [Request.members,if_neg hne,if_neg (by simp [h.announced]),hvalue]

theorem model_interpretRequest {r : Request} {request : InterpretRequest}
    (h : r.Carries request.toJson) : r.model InterpretRequest.ofMembers = .ok request := by
  have hregular : Json.Regular Json.depthLimit request.toJson := by
    refine .object (by simp) ?_
    simp [Json.Regular.string]
  rw [Request.model,members_of_carries h hregular]
  rfl

theorem model_formatRequest {r : Request} {request : FormatRequest}
    (h : r.Carries request.toJson) : r.model FormatRequest.ofMembers = .ok request := by
  have hregular : Json.Regular Json.depthLimit request.toJson := by
    refine .object (by simp) ?_
    simp [Json.Regular.string]
  obtain ⟨path,mode⟩ := request
  rw [Request.model,members_of_carries h hregular]
  cases mode <;> rfl

section Points

open Schema

theorem points_of_string {v : Json} {s : Text} (h : Schema.string v = .valid s) :
    Schema.points v = .valid s.lift := by
  cases v <;> cases h
  rfl

theorem andThen_eq_valid {β : Type} {x : Checked β} {issues : List Issue} {v : β} :
    x.andThen issues = .valid v ↔ x = .valid v ∧ issues = [] := by
  cases x <;> cases issues <;> simp [Checked.andThen]

theorem seq_eq_valid {β γ δ : Type} {f : β → γ → δ} {x : Checked β} {y : Checked γ} {v : δ} :
    f <$> x <*> y = .valid v ↔ ∃ a b, x = .valid a ∧ y = .valid b ∧ f a b = v := by
  cases x <;> cases y <;> simp [Functor.map,Seq.seq,Checked.map,Checked.apply]

theorem field_points {ms : Members} {name s : Text}
    (h : field ms name none Schema.string = .valid s) :
    field ms name none Schema.points = .valid s.lift := by
  unfold field at h ⊢
  cases hv : ms.lookup name with
  | none => simp [hv] at h
  | some v =>
    simp only [hv] at h ⊢
    cases hs : Schema.string v with
    | invalid issues => simp [hs,Checked.under] at h
    | valid t =>
      simp only [hs,Checked.under,Checked.valid.injEq] at h
      rw [points_of_string hs,h]
      rfl

theorem interpretRequest_points {ms : Members} {request : InterpretRequest}
    (h : InterpretRequest.ofMembers ms = .valid request) :
    InterpretRequest.ofMembersBy Schema.points ms =
      .valid ⟨request.path.lift,request.report.lift⟩ := by
  obtain ⟨hfields,hothers⟩ := andThen_eq_valid.mp h
  obtain ⟨path,report,hpath,hreport,rfl⟩ := seq_eq_valid.mp hfields
  rw [InterpretRequest.ofMembersBy,closed,hothers,field_points hpath,field_points hreport]
  rfl

theorem formatRequest_points {ms : Members} {request : FormatRequest}
    (h : FormatRequest.ofMembers ms = .valid request) :
    FormatRequest.ofMembersBy Schema.points ms = .valid ⟨request.path.lift,request.mode⟩ := by
  obtain ⟨hfields,hothers⟩ := andThen_eq_valid.mp h
  obtain ⟨path,mode,hpath,hmode,rfl⟩ := seq_eq_valid.mp hfields
  rw [FormatRequest.ofMembersBy,closed,hothers,field_points hpath,hmode]
  rfl

theorem model_of_read {β γ : Type} {r : Request} {read : Members → Checked β}
    {read' : Members → Checked γ} {f : β → γ}
    (hread : ∀ {ms x}, read ms = .valid x → read' ms = .valid (f x)) {x : β}
    (h : r.model read = .ok x) : r.model read' = .ok (f x) := by
  unfold Request.model at h ⊢
  cases hmembers : r.members with
  | error refusal => simp [hmembers,bind,Except.bind] at h
  | ok ms =>
    simp only [hmembers,bind,Except.bind] at h ⊢
    cases hx : read ms with
    | invalid issues => simp [hx] at h
    | valid y =>
      simp only [hx,Except.ok.injEq] at h
      rw [hread hx,h]

/-- A request to interpret a report is read the same where its texts are of characters. -/
theorem model_interpretPoints {r : Request} {request : InterpretRequest}
    (h : r.model InterpretRequest.ofMembers = .ok request) :
    r.model (InterpretRequest.ofMembersBy Schema.points) =
      .ok ⟨request.path.lift,request.report.lift⟩ :=
  model_of_read interpretRequest_points h

theorem model_formatPoints {r : Request} {request : FormatRequest}
    (h : r.model FormatRequest.ofMembers = .ok request) :
    r.model (FormatRequest.ofMembersBy Schema.points) = .ok ⟨request.path.lift,request.mode⟩ :=
  model_of_read formatRequest_points h

end Points

end Bodies

section Targets

/-- A reference without a percent sign holds no escapes. -/
theorem unescaped_of_not_mem {t : Text} (h : '%' ∉ t) : Target.unescaped t = t := by
  have hbytes : Target.unescapedBytes t = encode t := by
    induction t with
    | nil => rfl
    | cons c t ih =>
      obtain ⟨hc,ht⟩ : '%' ≠ c ∧ '%' ∉ t := by simpa using h
      rw [Target.unescapedBytes,ih ht]
      · rfl
      · exact fun _ _ _ he => absurd he.symm hc
  rw [Target.unescaped,hbytes,Text.Utf8.decodeLenient_encode]

/-- A request that asks an endpoint, and brings a value in its body. -/
def Endpoint.request (e : Endpoint) (v : Json) : Request :=
  { method := "POST".toList, target := e.path
    headers := [("content-type".toList,"application/json".toList)]
    body := encode (Json.write .compact v) }

theorem Endpoint.carries_request (e : Endpoint) (v : Json) : (e.request v).Carries v :=
  ⟨rfl,.compact,rfl⟩

theorem Endpoint.asks_request {e : Endpoint} (he : e = .format ∨ e = .interpret) (v : Json) :
    (e.request v).Asks e := by
  refine ⟨by rcases he with rfl | rfl <;> exact List.mem_singleton.mpr rfl,?_⟩
  have hpath : Target.path e.path = e.path := by
    have hplain : Target.withoutDots (Target.pathPart e.path) = e.path := by
      rcases he with rfl | rfl <;> rfl
    have hescape : '%' ∉ e.path := by rcases he with rfl | rfl <;> decide
    rw [Target.path,hplain,unescaped_of_not_mem hescape,unescaped_of_not_mem hescape]
  rw [request,hpath,atPath?_path]

end Targets

section Responses

variable {host : Host} {settings : Settings} {s after : Service} {r : Request} {e : Endpoint}
  {fresh : Text} {response : Response}

/-- A response that brings a value, under the id of the request's run. -/
def Response.ofValue (runId : Text) (v : Json) : Response :=
  { status := 200, content := .json v, runId := some runId }

theorem answer_of_asks (h : r.Asks e) :
    s.answer host settings r = s.answerAt host settings r e := by
  have hroute : r.route = .endpoint e := by
    rw [Request.route,h.target]
    exact if_pos (List.contains_iff_mem.mpr h.method)
  rw [Service.answer,hroute]

theorem serve_of_asks (h : r.Asks e)
    (ha : { s with runId := Service.runIdFor fresh r }.answerAt host settings r e =
      (.ok response,after)) :
    s.serve host settings fresh r =
      ({ response with runId := some (Service.runIdFor fresh r) },
        { after with runId := s.runId }) := by
  rw [← answer_of_asks h] at ha
  simp only [Service.serve,ha]

theorem answerAt_format {request : FormatRequest}
    (h : r.model FormatRequest.ofMembers = .ok request) (s : Service) :
    s.answerAt host settings r .format = s.format host settings request := by
  rw [Service.answerAt,model_formatPoints h]
  simp only [Text.chars?_lift]

end Responses

end FormatEdits.Web
