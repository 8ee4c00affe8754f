import ThreeTears.Lib.Families
import ThreeTears.Nats.ObjectStore

/-!
# A sweep of orphan chunks never tears an object

A put that is under way holds a claim, so a sweep that finds no claim judges only puts whose
metadata is in the stream by then, or never will be. A chunk subject that it saw and that no
metadata names afterwards is named by no object, then or later.
-/

namespace ThreeTears

open Function List

variable {N U β D κ : Type*}

namespace ObjectSetup

variable (x : ObjectSetup β D)

lemma flatten_pieces (data : List β) (n m : Nat) :
    ((List.range m).map fun i => (data.drop (i * n)).take n).flatten = data.take (m * n) := by
  induction m with
  | zero => simp
  | succ _ ih =>
    rw [range_succ, map_append, flatten_append, ih, Nat.succ_mul, take_add]
    simp

lemma flatten_split (data : List β) : (x.split data).flatten = data := by
  rw [split, flatten_pieces, take_of_length_le]
  have hpos := x.chunkBytes_pos
  have hd := Nat.div_add_mod (data.length + x.chunkBytes - 1) x.chunkBytes
  have hm := Nat.mod_lt (data.length + x.chunkBytes - 1) hpos
  rw [Nat.mul_comm] at hd
  omega

variable {x} [DecidableEq D]

lemma joined_split (name : N) (nuid : U) (data : List β) :
    x.joined (x.record name nuid data) (x.split data) = some data := by
  have ht : (x.split data).take (x.record name nuid data : ObjectInfo N U D).chunks =
      x.split data := take_length
  unfold joined
  rw [ht, flatten_split]
  simp [record]

lemma eq_of_joined {name : N} {nuid : U} {data data' : List β} {messages : List (List β)}
    (h : x.joined (x.record name nuid data) messages = some data') : data' = data := by
  simp only [joined] at h
  split_ifs at h with hh hd
  cases h
  exact x.digest_injective (not_not.1 (not_or.1 hd).2)

end ObjectSetup

lemma streamSubjects_eq {S : Type*} {cap : Nat} (hc : 0 < cap) {pages : Nat} {l : List S}
    (h : l.length < pages) : streamSubjects cap pages l = l := by
  induction pages generalizing l with
  | zero => exact absurd h (Nat.not_lt_zero _)
  | succ _ ih =>
    unfold streamSubjects
    simp only
    split_ifs with hu
    · rw [ih, take_append_drop]
      rw [length_take] at hu
      rw [length_drop]
      omega
    · exact take_of_length_le (by rw [length_take] at hu; omega)

namespace ObjectStore

variable {s s' : ObjectStore N U β D κ} {nuid : U} {name : N} {info : ObjectInfo N U D}

section Chunks

variable [DecidableEq U]

lemma mem_chunkSubjects : nuid ∈ s.chunkSubjects ↔ ∃ piece, (nuid, piece) ∈ s.chunks := by
  have hl : (s.chunks.map Prod.fst).dedup.length < s.chunks.length + 1 :=
    Nat.lt_succ_of_le ((dedup_sublist _).length_le.trans (by rw [length_map]))
  rw [chunkSubjects, streamSubjects_eq (by decide) hl]
  simp

lemma chunksOf_addChunk (piece : List β) (nuid' : U) : (s.addChunk nuid piece).chunksOf nuid' =
      s.chunksOf nuid' ++ if nuid' = nuid then [piece] else [] := by
  unfold chunksOf addChunk
  by_cases h : nuid' = nuid
  · simp [h]
  · simp [h, Ne.symm h]

lemma chunksOf_purgeChunks {nuid' : U} (h : nuid' ≠ nuid) :
    (s.purgeChunks nuid).chunksOf nuid' = s.chunksOf nuid' := by
  unfold chunksOf purgeChunks
  rw [List.filter_filter]
  congr 1
  refine filter_congr fun p _ => ?_
  by_cases hp : p.1 = nuid'
  · simp [hp, h]
  · simp [hp]

end Chunks

section Names

variable [DecidableEq N]

lemma mem_names : name ∈ s.names ↔ ∃ info ∈ s.metas, info.name = name := by
  have hl : (s.metas.map ObjectInfo.name).dedup.length < s.metas.length + 1 :=
    Nat.lt_succ_of_le ((dedup_sublist _).length_le.trans (by rw [length_map]))
  rw [names, streamSubjects_eq (by decide) hl]
  simp

lemma mem_of_rawInfo (h : s.rawInfo name = some info) : info ∈ s.metas ∧ info.name = name := by
  have hmem := mem_of_getLast? h
  simpa using hmem

lemma name_ne_of_rawInfo (h : s.rawInfo name = none) : ∀ info ∈ s.metas, info.name ≠ name := by
  intro info hinfo hna
  rw [rawInfo, List.getLast?_eq_none_iff, filter_eq_nil_iff] at h
  exact h info hinfo (decide_eq_true hna)

lemma rawInfo_eq (ho : (s.metas.map ObjectInfo.name).Nodup) (hinfo : info ∈ s.metas) :
    s.rawInfo info.name = some info := by
  cases h : s.rawInfo info.name with
  | none => exact absurd rfl (name_ne_of_rawInfo h info hinfo)
  | some =>
    obtain ⟨hmem, hna⟩ := mem_of_rawInfo h
    rw [inj_on_of_nodup_map ho hmem hinfo hna]

end Names

def Finished (s : ObjectStore N U β D κ) (nuid : U) : Prop :=
  nuid ∈ s.puts.map Prod.fst ∧ ∀ c, (s.calls c).nuid ≠ some nuid

def Orphan (s : ObjectStore N U β D κ) (nuid : U) : Prop :=
  s.Finished nuid ∧ ∀ info ∈ s.metas, info.nuid ≠ nuid

def Recorded (x : ObjectSetup β D) (s : ObjectStore N U β D κ) (info : ObjectInfo N U D)
    (data : List β) : Prop :=
  (info.nuid, info.name, data) ∈ s.puts ∧ info = x.record info.name info.nuid data

/-- What a get answers is what a put of that name wrote, and what the put that had returned wrote
unless a delete had begun. -/
def Answered (s : ObjectStore N U β D κ) (a : GetAnswer N β) : Prop :=
  (∀ d ∈ a.result, ∃ nuid, (nuid, a.name, d) ∈ s.puts) ∧
    ∀ d ∈ a.expected, a.undeleted → a.result = some d

variable [DecidableEq U]

def Knows (x : ObjectSetup β D) (s : ObjectStore N U β D κ) : StorePc N U β D → Prop
  | .writing _ name nuid data left =>
    (nuid, name, data) ∈ s.puts ∧ s.chunksOf nuid ++ left = x.split data
  | .getting name expected => ∀ d ∈ expected, (name, d) ∈ s.returned
  | .fetching name expected info => (info.name = name ∧ ∃ data, s.Recorded x info data) ∧
    ∀ d ∈ expected, name ∉ s.begun → info ∈ s.metas ∧ s.Recorded x info d
  | .deleting name | .unnaming name => name ∈ s.begun
  | .purging name nuid => name ∈ s.begun ∧ s.Finished nuid ∧ ∃ data, (nuid, name, data) ∈ s.puts
  | .askingClaims subjects => ∀ u ∈ subjects, u ∈ s.puts.map Prod.fst
  | .counting subjects | .listingNames subjects => ∀ u ∈ subjects, s.Finished u
  | .readingNames subjects left named => ∀ u ∈ subjects, s.Finished u ∧
    (u ∈ named ∨ ∀ info ∈ s.metas, info.nuid = u → info.name ∈ left)
  | .sweeping left => ∀ u ∈ left, s.Orphan u
  | _ => True

/-- What becomes of an object: it is whole until a delete of its name begins. -/
structure Whole (x : ObjectSetup β D) (s : ObjectStore N U β D κ) (info : ObjectInfo N U D) :
    Prop where
  finished : s.Finished info.nuid
  recorded : ∃ data, s.Recorded x info data ∧
    (info.name ∉ s.begun → s.chunksOf info.nuid = x.split data)

/-- Every writer has its own claim, and every put its own subject. -/
structure Claims (s : ObjectStore N U β D κ) : Prop where
  keys : ∀ c, ∀ key ∈ (s.calls c).key, key ∈ s.keys ∧ isWriteClaimKey key
  ownKey : ∀ c c', ∀ key ∈ (s.calls c).key, key ∈ (s.calls c').key → c = c'
  ownNuid : ∀ c c', ∀ nuid ∈ (s.calls c).nuid, nuid ∈ (s.calls c').nuid → c = c'

structure Objects (x : ObjectSetup β D) (s : ObjectStore N U β D κ) : Prop where
  puts : (s.puts.map Prod.fst).Nodup
  chunks : ∀ p ∈ s.chunks, p.1 ∈ s.puts.map Prod.fst
  names : (s.metas.map ObjectInfo.name).Nodup
  whole : ∀ info ∈ s.metas, s.Whole x info
  deleted : ∀ name ∈ s.deleted, name ∈ s.begun
  returned : ∀ p ∈ s.returned, p.1 ∈ s.deleted ∨ ∃ info ∈ s.metas, info.name = p.1 ∧
    s.Recorded x info p.2
  once : (s.returned.map Prod.fst).Nodup
  swept : ∀ u ∈ s.swept, s.Orphan u
  answers : ∀ a ∈ s.answers, s.Answered a

structure Inv (x : ObjectSetup β D) (s : ObjectStore N U β D κ) : Prop where
  claims : s.Claims
  objects : s.Objects x
  knows : ∀ c, s.Knows x (s.calls c)

structure Frame (s s' : ObjectStore N U β D κ) : Prop where
  puts : ∀ p ∈ s.puts, p ∈ s'.puts
  finished : ∀ u, s.Finished u → s'.Finished u
  begun : ∀ name ∈ s.begun, name ∈ s'.begun
  returned : ∀ p ∈ s.returned, p ∈ s'.returned
  old : ∀ info ∈ s'.metas, s.Finished info.nuid → info ∈ s.metas
  kept : ∀ info ∈ s.metas, info.name ∉ s'.begun → info ∈ s'.metas

variable {x : ObjectSetup β D} {pc : StorePc N U β D} {c : κ}

omit [DecidableEq U] in
lemma Recorded.mono {data : List β} (h : s.Recorded x info data) (hf : s.Frame s') :
    s'.Recorded x info data := ⟨hf.puts _ h.1, h.2⟩

omit [DecidableEq U] in
lemma Orphan.mono (h : s.Orphan nuid) (hf : s.Frame s') : s'.Orphan nuid :=
  ⟨hf.finished _ h.1, fun info hinfo hu => h.2 info (hf.old info hinfo (hu ▸ h.1)) hu⟩

omit [DecidableEq U] in
lemma Answered.mono {a : GetAnswer N β} (h : s.Answered a) (hf : s.Frame s') : s'.Answered a :=
  ⟨fun d hd => (h.1 d hd).imp fun _ hu => hf.puts _ hu, h.2⟩

lemma Whole.mono (h : s.Whole x info) (hf : s.Frame s')
    (hc : info.name ∉ s'.begun → s'.chunksOf info.nuid = s.chunksOf info.nuid) :
    s'.Whole x info := by
  obtain ⟨hi, data, hr, hsp⟩ := h
  refine ⟨hf.finished _ hi, data, hr.mono hf, fun hb => ?_⟩
  rw [hc hb]
  exact hsp fun hmem => hb (hf.begun _ hmem)

lemma Knows.mono (h : s.Knows x pc) (hf : s.Frame s')
    (hc : ∀ u ∈ pc.nuid, s'.chunksOf u = s.chunksOf u) : s'.Knows x pc := by
  have hmem : ∀ u ∈ s.puts.map Prod.fst, u ∈ s'.puts.map Prod.fst := fun u hu => by
    obtain ⟨p, hp, rfl⟩ := List.mem_map.1 hu
    exact mem_map_of_mem (hf.puts p hp)
  cases pc with
  | writing _ _ nuid =>
    refine ⟨hf.puts _ h.1, ?_⟩
    rw [hc nuid rfl]
    exact h.2
  | getting => exact fun d hd => hf.returned _ (h d hd)
  | fetching _ _ info =>
    obtain ⟨⟨hna, data, hda⟩, he⟩ := h
    refine ⟨⟨hna, data, hda.mono hf⟩, fun d hd hb => ?_⟩
    obtain ⟨hinfo, hr⟩ := he d hd fun hmem => hb (hf.begun _ hmem)
    exact ⟨hf.kept info hinfo (hna ▸ hb), hr.mono hf⟩
  | deleting name | unnaming name => exact hf.begun name h
  | purging name nuid =>
    obtain ⟨hb, hi, data, hda⟩ := h
    exact ⟨hf.begun name hb, hf.finished nuid hi, data, hf.puts _ hda⟩
  | askingClaims => exact fun u hu => hmem u (h u hu)
  | counting sub | listingNames sub => exact fun u hu => hf.finished u (h u hu)
  | readingNames =>
    intro u hu
    obtain ⟨hi, hm⟩ := h u hu
    refine ⟨hf.finished u hi, hm.imp_right fun hl info hinfo hnu => ?_⟩
    exact hl info (hf.old info hinfo (hnu ▸ hi)) hnu
  | sweeping => exact fun u hu => (h u hu).mono hf
  | _ => trivial

section Step

variable [DecidableEq κ]

omit [DecidableEq U] in
lemma Finished.mono (h : s.Finished nuid) (hu : ∀ p ∈ s.puts, p ∈ s'.puts)
    (hc : s'.calls = update s.calls c pc)
    (hnu : ∀ u ∈ pc.nuid, u ∈ (s.calls c).nuid ∨ u ∉ s.puts.map Prod.fst) : s'.Finished nuid := by
  refine ⟨?_, fun c' hc' => ?_⟩
  · obtain ⟨p, hp, rfl⟩ := List.mem_map.1 h.1
    exact mem_map_of_mem (hu p hp)
  rw [hc] at hc'
  obtain rfl | he := eq_or_ne c' c
  · rw [update_self] at hc'
    exact (hnu nuid hc').elim (h.2 c') fun ho => ho h.1
  rw [update_of_ne he] at hc'
  exact h.2 c' hc'

omit [DecidableEq U] in
lemma Frame.of_update (hc : s'.calls = update s.calls c pc)
    (hnu : ∀ u ∈ pc.nuid, u ∈ (s.calls c).nuid) (hpu : s'.puts = s.puts)
    (hm : s'.metas = s.metas) (hr : s'.returned = s.returned)
    (hb : ∀ n ∈ s.begun, n ∈ s'.begun) : s.Frame s' where
  puts := fun _ hp => hpu ▸ hp
  finished := fun _ hu => hu.mono (fun _ hp => hpu ▸ hp) hc fun u hu => .inl (hnu u hu)
  begun := hb
  returned := fun _ hp => hr ▸ hp
  old := fun _ hinfo _ => hm ▸ hinfo
  kept := fun _ hinfo _ => hm ▸ hinfo

lemma knows_update (h : ∀ c, s.Knows x (s.calls c)) (hf : s.Frame s')
    (hcs : s'.calls = update s.calls c pc)
    (hc : ∀ c' ≠ c, ∀ u ∈ (s.calls c').nuid, s'.chunksOf u = s.chunksOf u)
    (hpc : s'.Knows x pc) (c' : κ) : s'.Knows x (s'.calls c') := by
  rw [hcs]
  obtain rfl | he := eq_or_ne c' c
  · rw [update_self]
    exact hpc
  rw [update_of_ne he]
  exact (h c').mono hf (hc c' he)

omit [DecidableEq U] in
lemma own_update {K : Type*} (own : StorePc N U β D → Option K)
    (h : ∀ c c', ∀ k ∈ own (s.calls c), k ∈ own (s.calls c') → c = c')
    (hpc : ∀ k ∈ own pc, k ∈ own (s.calls c) ∨ ∀ c', k ∉ own (s.calls c')) (c₁ c₂ : κ) (k : K)
    (h₁ : k ∈ own (update s.calls c pc c₁)) (h₂ : k ∈ own (update s.calls c pc c₂)) : c₁ = c₂ := by
  have hmem : ∀ c', k ∈ own (update s.calls c pc c') →
      k ∈ own (s.calls c') ∨ c' = c ∧ ∀ c'', k ∉ own (s.calls c'') :=
    forall_update (I := fun c' (pc : StorePc N U β D) =>
        k ∈ own pc → k ∈ own (s.calls c') ∨ c' = c ∧ ∀ c'', k ∉ own (s.calls c''))
      (fun _ hk => .inl hk) fun hk => (hpc k hk).imp_right fun hnew => ⟨rfl, hnew⟩
  obtain hk₁ | ⟨rfl, hnew⟩ := hmem c₁ h₁
  · obtain hk₂ | ⟨-, hnew⟩ := hmem c₂ h₂
    · exact h c₁ c₂ k hk₁ hk₂
    · exact absurd hk₁ (hnew c₁)
  obtain hk₂ | ⟨rfl, -⟩ := hmem c₂ h₂
  · exact absurd hk₂ (hnew c₂)
  · rfl

omit [DecidableEq U] in
lemma Claims.move (h : s.Claims) (hcs : s'.calls = update s.calls c pc)
    (hkeys : ∀ key ∈ s.keys, (∀ c' ≠ c, key ∉ (s.calls c').key) ∧ key ∉ pc.key ∨ key ∈ s'.keys)
    (hkey : ∀ key ∈ pc.key, key ∈ (s.calls c).key ∨
      key ∉ s.keys ∧ key ∈ s'.keys ∧ isWriteClaimKey key)
    (hu : ∀ u ∈ pc.nuid, u ∈ (s.calls c).nuid ∨ ∀ c', u ∉ (s.calls c').nuid) : s'.Claims := by
  have hold : ∀ c', ∀ key ∈ (s.calls c').key,
      ¬ ((∀ c' ≠ c, key ∉ (s.calls c').key) ∧ key ∉ pc.key) → key ∈ s'.keys ∧ isWriteClaimKey key :=
    fun c' key hk ho =>
      have hc := h.keys c' key hk
      ⟨(hkeys key hc.1).resolve_left ho, hc.2⟩
  refine ⟨fun c' key hk => ?_, ?_, ?_⟩
  · rw [hcs] at hk
    obtain rfl | he := eq_or_ne c' c
    · rw [update_self] at hk
      obtain hmem | ⟨-, hnew⟩ := hkey key hk
      · exact hold c' key hmem fun ho => ho.2 hk
      · exact hnew
    rw [update_of_ne he] at hk
    exact hold c' key hk fun ho => ho.1 c' he hk
  · rw [hcs]
    refine own_update StorePc.key h.ownKey fun key hk => (hkey key hk).imp_right fun hnew c' hmem =>
      ?_
    exact hnew.1 (h.keys c' key hmem).1
  rw [hcs]
  exact own_update StorePc.nuid h.ownNuid hu

end Step

section Turns

variable [DecidableEq N] {pc' : StorePc N U β D}

lemma Turn.key_mem (h : s.Turn pc pc') : ∀ key ∈ pc'.key, key ∈ pc.key := by
  cases h with
  | fails _ _ hpc =>
    rintro _ ⟨⟩
    exact hpc
  | put key => exact fun key hk => hk
  | _ => rintro _ ⟨⟩

lemma Turn.nuid_mem (h : s.Turn pc pc') : ∀ u ∈ pc'.nuid, u ∈ pc.nuid := by cases h <;> rintro _ ⟨⟩

omit [DecidableEq U] [DecidableEq N] in
lemma exists_key_of_nuid (h : pc.nuid = some nuid) : ∃ key, pc.key = some key := by
  cases pc with
  | writing key => exact ⟨key, rfl⟩
  | _ => cases h

lemma Inv.exists_of_returned {data : List β} (h : s.Inv x) (he : (name, data) ∈ s.returned)
    (hb : name ∉ s.begun) : ∃ info, s.rawInfo name = some info ∧ info ∈ s.metas ∧
      s.Recorded x info data := by
  obtain hd | ⟨info, hinfo, hna, hr⟩ := h.objects.returned _ he
  · exact absurd (h.objects.deleted name hd) hb
  have hna : info.name = name := hna
  subst hna
  exact ⟨info, rawInfo_eq h.objects.names hinfo, hinfo, hr⟩

lemma Turn.knows (ht : s.Turn pc pc') (h : s.Inv x) (hk : s.Knows x pc) : s.Knows x pc' := by
  cases ht with
  | get name =>
    intro d hd
    obtain ⟨p, hp, rfl⟩ := Option.map_eq_some_iff.1 hd
    have hfn : s.returned.find? (fun q => decide (q.1 = name)) = some p := hp
    have hm : p.1 = name := by simpa using List.find?_some hfn
    exact hm ▸ mem_of_find?_eq_some hfn
  | found _ _ info hinfo =>
    obtain ⟨hmem, hm⟩ := mem_of_rawInfo hinfo
    obtain ⟨data, hda, -⟩ := (h.objects.whole info hmem).recorded
    refine ⟨⟨hm, data, hda⟩, fun d hd hb => ?_⟩
    obtain ⟨info', hi', hm', hr⟩ := h.exists_of_returned (hk d hd) hb
    cases hinfo.symm.trans hi'
    exact ⟨hmem, hr⟩
  | foundToDelete _ info hinfo =>
    obtain ⟨hmem, rfl⟩ := mem_of_rawInfo hinfo
    obtain ⟨data, hda, -⟩ := (h.objects.whole info hmem).recorded
    exact ⟨hk, (h.objects.whole info hmem).finished, data, hda.1⟩
  | list =>
    intro u hu
    obtain ⟨piece, hpi⟩ := mem_chunkSubjects.1 hu
    exact h.objects.chunks _ hpi
  | noClaim _ hkeys =>
    intro u hu
    refine ⟨hk u hu, fun c hc => ?_⟩
    obtain ⟨key, hkey⟩ := exists_key_of_nuid hc
    obtain ⟨hmem, hcl⟩ := h.claims.keys c key hkey
    cases (hkeys key hmem).symm.trans hcl
  | many => exact hk
  | listNames =>
    exact fun u hu => ⟨hk u hu, .inr fun info hinfo _ => mem_names.2 ⟨info, hinfo, rfl⟩⟩
  | readName _ name =>
    intro u hu
    obtain ⟨hi, hna⟩ := hk u hu
    refine ⟨hi, ?_⟩
    obtain hna | hl := hna
    · exact .inl (mem_append_left _ hna)
    by_cases hm : ∃ info ∈ s.metas, info.nuid = u ∧ info.name = name
    · obtain ⟨info, hinfo, rfl, rfl⟩ := hm
      refine .inl (mem_append_right _ ?_)
      simp [rawInfo_eq h.objects.names hinfo]
    refine .inr fun info hinfo hnu => ?_
    apply (mem_cons.1 (hl info hinfo hnu)).resolve_left
    exact fun he => hm ⟨info, hinfo, hnu, he⟩
  | readAll =>
    intro u hu
    obtain ⟨hmem, ho⟩ := mem_filter.1 hu
    obtain ⟨hi, hna⟩ := hk u hmem
    refine ⟨hi, fun info hinfo hnu => ?_⟩
    have hl := hna.resolve_left (of_decide_eq_true ho) info hinfo hnu
    cases hl
  | _ => trivial

end Turns

lemma Objects.congr (h : s.Objects x) (hi : ∀ u, s.Finished u → s'.Finished u)
    (hc : s'.chunks = s.chunks) (hm : s'.metas = s.metas) (hpu : s'.puts = s.puts)
    (he : s'.returned = s.returned) (hb : s'.begun = s.begun)
    (hd : s'.deleted = s.deleted) (hw : s'.swept = s.swept)
    (han : s'.answers = s.answers) : s'.Objects x := by
  refine ⟨hpu ▸ h.puts, by rw [hc, hpu]; exact h.chunks, hm ▸ h.names, ?_,
    by rw [hd, hb]; exact h.deleted, ?_, he ▸ h.once, ?_,
    by simpa only [Answered, han, hpu] using h.answers⟩
  · intro info hinfo
    obtain ⟨hfn, hr⟩ := h.whole info (hm ▸ hinfo)
    refine ⟨hi _ hfn, ?_⟩
    simpa only [Recorded, chunksOf, hpu, hb, hc] using hr
  · simpa only [Recorded, he, hd, hm, hpu] using h.returned
  intro u hu
  obtain ⟨hfn, horphan⟩ := h.swept u (hw ▸ hu)
  exact ⟨hi u hfn, hm ▸ horphan⟩

section Moves

variable [DecidableEq κ] (h : s.Inv x)
include h

lemma Inv.quiet (hcs : s'.calls = update s.calls c pc)
    (hl : s'.Claims) (hnu : ∀ u ∈ pc.nuid, u ∈ (s.calls c).nuid) (hpc : s.Knows x pc)
    (hc : s'.chunks = s.chunks) (hm : s'.metas = s.metas) (hu : s'.puts = s.puts)
    (hr : s'.returned = s.returned) (hb : s'.begun = s.begun)
    (hd : s'.deleted = s.deleted) (hw : s'.swept = s.swept)
    (han : s'.answers = s.answers) : s'.Inv x := by
  have hf : s.Frame s' := .of_update hcs hnu hu hm hr fun n hn => hb ▸ hn
  have hsa : ∀ u, s'.chunksOf u = s.chunksOf u := fun u => by rw [chunksOf, chunksOf, hc]
  exact ⟨hl, h.objects.congr hf.finished hc hm hu hr hb hd hw
    han, knows_update h.knows hf hcs (fun _ _ u _ => hsa u)
      (hpc.mono hf fun u _ => hsa u)⟩

lemma Inv.turn [DecidableEq N] (ht : s.Turn (s.calls c) pc) : (s.setPc c pc).Inv x :=
  h.quiet rfl (h.claims.move rfl (fun _ hk => .inr hk) (fun key hk => .inl (ht.key_mem key hk))
      fun u hu => .inl (ht.nuid_mem u hu))
    ht.nuid_mem (ht.knows h (h.knows c)) rfl rfl rfl rfl rfl rfl rfl rfl

variable {key : BucketKey}

lemma Inv.claim (hkey : isWriteClaimKey key) (hfree : key ∉ s.keys) :
    Inv x { s.setPc c (.holding key) with keys := key :: s.keys } := by
  refine h.quiet rfl (h.claims.move rfl (fun _ hk => .inr (mem_cons_of_mem _ hk)) ?_
    nofun) nofun trivial rfl rfl rfl rfl rfl rfl rfl rfl
  rintro _ ⟨⟩
  exact .inr ⟨hfree, mem_cons_self, hkey⟩

lemma Inv.release (hpc : s.calls c = .holding key) :
    Inv x { s.setPc c .idle with keys := s.keys.filter (· ≠ key) } := by
  refine h.quiet rfl (h.claims.move rfl (fun k hk => ?_) nofun nofun)
    nofun trivial rfl rfl rfl rfl rfl rfl rfl rfl
  obtain rfl | hkey := eq_or_ne k key
  · refine .inl ⟨fun c' he hk' => he ?_, by rintro ⟨⟩⟩
    exact h.claims.ownKey c' c k hk' (by rw [hpc]; rfl)
  · exact .inr (mem_filter.2 ⟨hk, decide_eq_true hkey⟩)

omit [DecidableEq κ] in
lemma Inv.mem_puts (hu : nuid ∈ (s.calls c).nuid) : nuid ∈ s.puts.map Prod.fst := by
  have hk := h.knows c
  cases hpc : s.calls c with
  | writing =>
    rw [hpc] at hu hk
    cases hu
    exact mem_map_of_mem hk.1
  | _ =>
    rw [hpc] at hu
    cases hu

variable {data : List β}

lemma Inv.startPut
    (hpc : s.calls c = .checking key name data) (hfr : nuid ∉ s.puts.map Prod.fst) :
    Inv x { s.setPc c (.writing key name nuid data (x.split data)) with
      puts := s.puts ++ [(nuid, name, data)] } := by
  have hf : s.Frame { s.setPc c (.writing key name nuid data (x.split data)) with
      puts := s.puts ++ [(nuid, name, data)] } :=
    { puts := fun p hp => mem_append_left _ hp
      finished := fun u hu => hu.mono (fun p hp => mem_append_left _ hp) rfl
        (by rintro _ ⟨⟩; exact .inr hfr)
      begun := fun _ hn => hn
      returned := fun _ hp => hp
      old := fun _ hinfo _ => hinfo
      kept := fun _ hinfo _ => hinfo }
  have he : s.chunksOf nuid = [] := by
    rw [chunksOf, List.map_eq_nil_iff, filter_eq_nil_iff]
    exact fun p hp hq => hfr (of_decide_eq_true hq ▸ h.objects.chunks p hp)
  refine ⟨h.claims.move rfl (fun _ hk => .inr hk) (fun _ hk => .inl (by rw [hpc]; exact hk)) ?_, ?_,
    knows_update h.knows hf rfl (fun _ _ _ _ => rfl)
      ⟨mem_append_right _ mem_cons_self, congrArg (· ++ x.split data) he⟩⟩
  · rintro _ ⟨⟩
    exact .inr fun c' hc' => hfr (h.mem_puts hc')
  have ho := h.objects
  exact
    { ho with
      puts := by
        rw [map_append]
        exact ho.puts.append (nodup_singleton _)
          (disjoint_singleton.2 hfr)
      chunks := fun p hp => map_append ▸ mem_append_left _ (ho.chunks p hp)
      whole := fun info hinfo => (ho.whole info hinfo).mono hf fun _ => rfl
      returned := fun p hp => (ho.returned p hp).imp_right fun ⟨info, hinfo, hna, hr⟩ =>
        ⟨info, hinfo, hna, hr.mono hf⟩
      swept := fun u hu => (ho.swept u hu).mono hf
      answers := fun a ha => (ho.answers a ha).mono hf }

lemma Inv.chunk {data piece : List β} {left : List (List β)}
    (hpc : s.calls c = .writing key name nuid data (piece :: left))
    (hnext : pc = .writing key name nuid data left ∨ pc = .holding key) :
    Inv x ((s.addChunk nuid piece).setPc c pc) := by
  have hnu : nuid ∈ (s.calls c).nuid := by rw [hpc]; rfl
  have hkn := h.knows c
  rw [hpc] at hkn
  have hkey : ∀ k ∈ pc.key, k ∈ (s.calls c).key := by
    rw [hpc]
    rcases hnext with rfl | rfl <;> exact fun _ hk => hk
  have hown : ∀ u ∈ pc.nuid, u ∈ (s.calls c).nuid := by
    rw [hpc]
    obtain rfl | rfl := hnext
    · exact fun _ hu => hu
    · rintro _ ⟨⟩
  have ht : ∀ u, u ≠ nuid → ((s.addChunk nuid piece).setPc c pc).chunksOf u = s.chunksOf u := by
    intro u he
    have hd : (s.addChunk nuid piece).chunksOf u = _ := chunksOf_addChunk piece u
    rw [if_neg he, append_nil] at hd
    exact hd
  have hf : s.Frame ((s.addChunk nuid piece).setPc c pc) :=
    .of_update rfl hown rfl rfl rfl fun _ hn => hn
  refine ⟨h.claims.move rfl (fun _ hk => .inr hk) (fun k hk => .inl (hkey k hk))
      fun u hu => .inl (hown u hu), ?_,
    knows_update h.knows hf rfl (fun c' he u hu => ht u ?_) ?_⟩
  · have ho := h.objects
    exact
      { ho with
        chunks := fun p hp => by
          obtain hp | hp := mem_append.1 hp
          · exact ho.chunks p hp
          rw [mem_singleton.1 hp]
          exact h.mem_puts hnu
        whole := fun info hinfo =>
          have hw := ho.whole info hinfo
          hw.mono hf fun _ => ht _ fun hq => hw.finished.2 c (hq ▸ hnu)
        swept := fun u hu => (ho.swept u hu).mono hf }
  · rintro rfl
    exact he (h.claims.ownNuid c' c u hu hnu)
  obtain rfl | rfl := hnext
  · have hd : (s.addChunk nuid piece).chunksOf nuid = _ := chunksOf_addChunk piece nuid
    rw [if_pos rfl] at hd
    refine ⟨hkn.1, ?_⟩
    have hsp := hkn.2
    rw [← singleton_append, ← append_assoc, ← hd] at hsp
    exact hsp
  · trivial

lemma Inv.named [DecidableEq N] {returned : List (N × List β)}
    (hpc : s.calls c = .writing key name nuid data []) (hnone : s.rawInfo name = none)
    (he : returned = [] ∨ returned = [(name, data)]) (hd : name ∉ s.deleted) :
    Inv x { (s.addMeta (x.record name nuid data)).setPc c (.holding key) with
      returned := s.returned ++ returned } := by
  have hnu : nuid ∈ (s.calls c).nuid := by rw [hpc]; rfl
  have hkn := h.knows c
  rw [hpc] at hkn
  have hf : s.Frame { (s.addMeta (x.record name nuid data)).setPc c (.holding key) with
      returned := s.returned ++ returned } :=
    { puts := fun _ hp => hp
      finished := fun u hu => hu.mono (fun _ hp => hp) rfl nofun
      begun := fun _ hn => hn
      returned := fun _ hp => mem_append_left _ hp
      old := fun info hinfo hold => by
        obtain hinfo | hinfo := mem_append.1 hinfo
        · exact hinfo
        rw [mem_singleton.1 hinfo] at hold
        exact absurd hnu (hold.2 c)
      kept := fun _ hinfo _ => mem_append_left _ hinfo }
  have hnew : (x.record name nuid data : ObjectInfo N U D) ∈
      (s.addMeta (x.record name nuid data)).metas := mem_append_right _ mem_cons_self
  have hr : s.Recorded x (x.record name nuid data) data := ⟨hkn.1, rfl⟩
  refine ⟨h.claims.move rfl (fun _ hk => .inr hk) (fun _ hk => .inl (by rw [hpc]; exact hk))
      nofun, ?_, knows_update h.knows hf rfl (fun _ _ _ _ => rfl) trivial⟩
  have ho := h.objects
  have hfree : name ∉ s.returned.map Prod.fst := by
    intro hmem
    obtain ⟨p, hp, rfl⟩ := List.mem_map.1 hmem
    obtain hg | ⟨info, hinfo, hna, -⟩ := ho.returned p hp
    · exact hd hg
    · exact name_ne_of_rawInfo hnone info hinfo hna
  exact
    { ho with
      names := by
        have hm : ((s.addMeta (x.record name nuid data)).metas.map ObjectInfo.name) =
            s.metas.map ObjectInfo.name ++ [name] := map_append
        refine hm ▸ ho.names.append (nodup_singleton _)
          (disjoint_singleton.2 ?_)
        intro hmem
        obtain ⟨info, hinfo, hna⟩ := List.mem_map.1 hmem
        exact name_ne_of_rawInfo hnone info hinfo hna
      whole := fun info hinfo => by
        obtain hinfo | hinfo := mem_append.1 hinfo
        · exact (ho.whole info hinfo).mono hf fun _ => rfl
        rw [mem_singleton.1 hinfo]
        refine ⟨⟨h.mem_puts hnu, fun c' hc' => ?_⟩, data, hr, fun _ => ?_⟩
        · -- the put that named the object was the only one with its subject
          obtain rfl | hne := eq_or_ne c' c
          · cases (congrArg StorePc.nuid (update_self c' _ s.calls)).symm.trans hc'
          refine hne (h.claims.ownNuid c' c nuid ?_ hnu)
          exact (congrArg StorePc.nuid (update_of_ne hne _ s.calls)).symm.trans hc'
        have hsp := hkn.2
        rw [append_nil] at hsp
        exact hsp
      returned := fun p hp => by
        obtain hp | hp := mem_append.1 hp
        · exact (ho.returned p hp).imp_right fun ⟨info, hinfo, hna, hc⟩ =>
            ⟨info, mem_append_left _ hinfo, hna, hc⟩
        obtain rfl | rfl := he
        · cases hp
        rw [mem_singleton.1 hp]
        exact .inr ⟨_, hnew, rfl, hr⟩
      once := by
        rw [map_append]
        apply ho.once.append
        · obtain rfl | rfl := he
          · exact nodup_nil
          · exact nodup_singleton _
        obtain rfl | rfl := he
        · exact disjoint_nil_right _
        · exact disjoint_singleton.2 hfree
      swept := fun u hu => (ho.swept u hu).mono hf }

lemma Inv.free (hcs : s'.calls = update s.calls c pc)
    (hkeys : s'.keys = s.keys) (hkey : pc.key = none) (hu : pc.nuid = none) (hf : s.Frame s')
    (hc : ∀ c' ≠ c, ∀ u ∈ (s.calls c').nuid, s'.chunksOf u = s.chunksOf u)
    (ho : s'.Objects x) (hpc : s'.Knows x pc) : s'.Inv x := by
  refine ⟨h.claims.move hcs (fun _ hk => .inr (hkeys ▸ hk)) ?_ ?_, ho,
    knows_update h.knows hf hcs hc hpc⟩
  · rw [hkey]
    rintro _ ⟨⟩
  rw [hu]
  rintro _ ⟨⟩

lemma Inv.answered [DecidableEq N] {expected res : Option (List β)}
    (han : s.Answered ⟨name, expected, name ∉ s.begun, res⟩) :
    Inv x ((s.answer name expected res).setPc c .idle) := by
  have hf : s.Frame ((s.answer name expected res).setPc c .idle) :=
    .of_update rfl nofun rfl rfl rfl fun _ hn => hn
  have ho := h.objects
  refine h.free rfl rfl rfl rfl hf (fun _ _ _ _ => rfl) ?_ trivial
  exact
    { ho with
      whole := fun info hinfo => (ho.whole info hinfo).mono hf fun _ => rfl
      swept := fun u hu => (ho.swept u hu).mono hf
      answers := fun a ha => by
        obtain ha | ha := mem_append.1 ha
        · exact ho.answers a ha
        rw [mem_singleton.1 ha]
        exact han }

omit [DecidableEq κ] in
lemma Inv.absent [DecidableEq N] {expected : Option (List β)}
    (hpc : s.calls c = .getting name expected) (hnone : s.rawInfo name = none) :
    s.Answered ⟨name, expected, name ∉ s.begun, none⟩ := by
  have hk := h.knows c
  rw [hpc] at hk
  refine ⟨by rintro _ ⟨⟩, fun d hd hb => ?_⟩
  obtain ⟨info, hinfo, -⟩ := h.exists_of_returned (hk d hd) (of_decide_eq_true hb)
  cases hnone.symm.trans hinfo

omit [DecidableEq κ] in
lemma Inv.joined_eq [DecidableEq D] (hinfo : info ∈ s.metas)
    (hr : s.Recorded x info data) (hb : info.name ∉ s.begun) :
    x.joined info (s.chunksOf info.nuid) = some data := by
  obtain ⟨data', hr', hsp⟩ := (h.objects.whole info hinfo).recorded
  have hd : data' = data :=
    x.digest_injective (congrArg ObjectInfo.digest (hr'.2.symm.trans hr.2))
  rw [hsp hb, hd, hr.2]
  exact ObjectSetup.joined_split _ _ _

omit [DecidableEq κ] in
lemma Inv.got [DecidableEq N] [DecidableEq D] {expected : Option (List β)}
    (hpc : s.calls c = .fetching name expected info) :
    s.Answered ⟨name, expected, name ∉ s.begun, x.joined info (s.chunksOf info.nuid)⟩ := by
  have hk := h.knows c
  rw [hpc] at hk
  obtain ⟨⟨rfl, data, hu, hre⟩, he⟩ := hk
  refine ⟨fun d hd => ⟨info.nuid, ?_⟩, fun d hd hb => ?_⟩
  · have hd : x.joined info (s.chunksOf info.nuid) = some d := hd
    rw [hre] at hd
    exact ObjectSetup.eq_of_joined hd ▸ hu
  have hb : info.name ∉ s.begun := of_decide_eq_true hb
  obtain ⟨hinfo, hr⟩ := he d hd hb
  exact h.joined_eq hinfo hr hb

lemma Inv.delete : Inv x { s.setPc c (.deleting name) with begun := name :: s.begun } := by
  have hf : s.Frame { s.setPc c (.deleting name) with begun := name :: s.begun } :=
    .of_update rfl nofun rfl rfl rfl fun _ hn => mem_cons_of_mem _ hn
  have ho := h.objects
  refine h.free rfl rfl rfl rfl hf (fun _ _ _ _ => rfl) ?_ mem_cons_self
  exact
    { ho with
      whole := fun info hinfo => (ho.whole info hinfo).mono hf fun _ => rfl
      deleted := fun n hn => mem_cons_of_mem _ (ho.deleted n hn)
      swept := fun u hu => (ho.swept u hu).mono hf }

lemma Inv.purged {swept : List U} (hnu : pc.nuid = none) (hkey : pc.key = none)
    (hi : s.Finished nuid) (hna : ∀ info ∈ s.metas, info.nuid = nuid →
      info.name ∈ s.begun) (hw : ∀ u ∈ swept, u ∈ s.swept ∨ s.Orphan u) (hpc : s.Knows x pc) :
    Inv x ({ s.purgeChunks nuid with swept := swept }.setPc c pc) := by
  have hf : s.Frame ({ s.purgeChunks nuid with swept := swept }.setPc c pc) :=
    .of_update rfl (by rw [hnu]; rintro _ ⟨⟩) rfl rfl rfl fun _ hn => hn
  have ht : ∀ u, u ≠ nuid →
      ({ s.purgeChunks nuid with swept := swept }.setPc c pc).chunksOf u = s.chunksOf u :=
    fun u he => chunksOf_purgeChunks he
  have ho := h.objects
  refine h.free rfl rfl hkey hnu hf (fun c' _ u hu => ht u ?_) ?_
    (hpc.mono hf (by rw [hnu]; rintro _ ⟨⟩))
  · rintro rfl
    exact hi.2 c' hu
  exact
    { ho with
      chunks := fun p hp => ho.chunks p (mem_of_mem_filter hp)
      whole := fun info hinfo => (ho.whole info hinfo).mono hf fun hb =>
        ht _ fun hq => hb (hna info hinfo hq)
      swept := fun u hu => ((hw u hu).elim (ho.swept u) id).mono hf }

lemma Inv.purge (hpc : s.calls c = .purging name nuid) :
    Inv x ((s.purgeChunks nuid).setPc c (.unnaming name)) := by
  have hk := h.knows c
  rw [hpc] at hk
  obtain ⟨hb, hi, data, hpu⟩ := hk
  refine h.purged rfl rfl hi (fun info hinfo hnu => ?_) (fun _ hu => .inl hu) hb
  obtain ⟨data', hr, -⟩ := (h.objects.whole info hinfo).recorded
  have he := inj_on_of_nodup_map h.objects.puts hr.1 hpu hnu
  have hna : info.name = name := congrArg (fun p => p.2.1) he
  exact hna ▸ hb

lemma Inv.sweep {left : List U} (hpc : s.calls c = .sweeping (nuid :: left)) :
    Inv x ({ s.purgeChunks nuid with swept := nuid :: s.swept }.setPc c (.sweeping left)) := by
  have hk := h.knows c
  rw [hpc] at hk
  have horphan := hk nuid mem_cons_self
  refine h.purged rfl rfl horphan.1 (fun info hinfo hnu => absurd hnu (horphan.2 info hinfo))
    (fun u hu => ?_) fun u hu => hk u (mem_cons_of_mem _ hu)
  obtain rfl | hu := mem_cons.1 hu
  · exact .inr horphan
  · exact .inl hu

lemma Inv.unname [DecidableEq N] (hpc : s.calls c = .unnaming name) :
    Inv x ((s.purgeMeta name).setPc c .idle) := by
  have hb := h.knows c
  rw [hpc] at hb
  have hb : name ∈ s.begun := hb
  have hk : ∀ info ∈ s.metas, info.name ≠ name → info ∈ (s.purgeMeta name).metas :=
    fun info hinfo hne => mem_filter.2 ⟨hinfo, decide_eq_true hne⟩
  have hf : s.Frame ((s.purgeMeta name).setPc c .idle) :=
    { puts := fun _ hp => hp
      finished := fun u hu => hu.mono (fun _ hp => hp) rfl nofun
      begun := fun _ hn => hn
      returned := fun _ hp => hp
      old := fun _ hinfo _ => mem_of_mem_filter hinfo
      kept := fun info hinfo hno => hk info hinfo fun he => hno (he ▸ hb) }
  have ho := h.objects
  refine h.free rfl rfl rfl rfl hf (fun _ _ _ _ => rfl) ?_ trivial
  exact
    { ho with
      names := ho.names.sublist (filter_sublist.map _)
      whole := fun info hinfo =>
        (ho.whole info (mem_of_mem_filter hinfo)).mono hf fun _ => rfl
      deleted := fun n hn => (mem_cons.1 hn).elim (fun he => he ▸ hb)
        (ho.deleted n)
      returned := fun p hp => by
        obtain hg | ⟨info, hinfo, hna, hr⟩ := ho.returned p hp
        · exact .inl (mem_cons_of_mem _ hg)
        by_cases he : p.1 = name
        · exact .inl (he ▸ mem_cons_self)
        · exact .inr ⟨info, hk info hinfo (hna ▸ he), hna, hr⟩
      swept := fun u hu => (ho.swept u hu).mono hf }

variable [DecidableEq D]

lemma Inv.moves [DecidableEq N] (hm : s.Moves x c s') : s'.Inv x := by
  cases hm with
  | turn _ ht => exact h.turn ht
  | claim _ _ hkey hfree => exact h.claim hkey hfree
  | release _ hpc => exact h.release hpc
  | startPut _ _ _ _ hpc hfr => exact h.startPut hpc hfr
  | chunk _ _ _ _ _ _ _ hpc hnext => exact h.chunk hpc hnext
  | name _ _ _ _ _ hpc hnone hr hnew =>
    exact h.named hpc hnone hr hnew
  | absent _ _ hpc hnone => exact h.answered (h.absent hpc hnone)
  | got _ _ _ hpc => exact h.answered (h.got hpc)
  | delete => exact h.delete
  | purge _ _ hpc => exact h.purge hpc
  | unname _ hpc => exact h.unname hpc
  | sweep _ _ hpc => exact h.sweep hpc

omit [DecidableEq κ] [DecidableEq D] in
lemma Inv.bucket {keys : List BucketKey}
    (hkeys : ∀ key ∈ s.keys, isWriteClaimKey key → key ∈ keys) : Inv x { s with keys := keys } :=
  have hf : s.Frame { s with keys := keys } :=
    ⟨fun _ hp => hp, fun _ hu => hu, fun _ hn => hn, fun _ hp => hp, fun _ hi _ => hi,
      fun _ hi _ => hi⟩
  ⟨⟨fun c key hk => have hc := h.claims.keys c key hk
      ⟨hkeys key hc.1 hc.2, hc.2⟩, h.claims.ownKey, h.claims.ownNuid⟩,
    h.objects.congr hf.finished rfl rfl rfl rfl rfl rfl rfl rfl,
    fun c => (h.knows c).mono hf fun _ _ => rfl⟩

end Moves

section Runs

variable [DecidableEq N] [DecidableEq κ] [DecidableEq D] {e : StoreEvent N U β κ}

lemma Inv.event (h : s.Inv x) (ht : ((system x).guard NotRewritten).step s e = some s') :
    s'.Inv x := by
  obtain ⟨hnew, ht⟩ := (StepSystem.guard_step_eq_some_iff _).1 ht
  cases e with (try simp only [system] at ht; try split_ifs at ht with hkey)
  | call => exact h.moves (moves_of_step hnew ht)
  | addKey =>
    cases ht
    exact h.bucket fun _ hk _ => mem_cons_of_mem _ hk
  | dropKey =>
    cases ht
    refine h.bucket fun k hk hc => mem_filter.2 ⟨hk, decide_eq_true ?_⟩
    rintro rfl
    exact hkey hc

omit [DecidableEq N] [DecidableEq κ] [DecidableEq D] in
lemma Inv.start : Inv x (start : ObjectStore N U β D κ) :=
  ⟨⟨by rintro _ _ ⟨⟩, by rintro _ _ _ ⟨⟩, by rintro _ _ _ ⟨⟩⟩,
    ⟨nodup_nil, by rintro _ ⟨⟩, nodup_nil, by rintro _ ⟨⟩, by rintro _ ⟨⟩, by rintro _ ⟨⟩,
      nodup_nil, by rintro _ ⟨⟩, by rintro _ ⟨⟩⟩, fun _ => trivial⟩

/-- Of the puts of a name at most one returns. What it wrote is read back until a delete of the name
begins, a get answers only what a put of the name wrote, and no object names a subject that a sweep
purged. -/
theorem sweeps_keep_objects {events : List (StoreEvent N U β κ)}
    (hrun : ((system x).guard NotRewritten).run (start : ObjectStore N U β D κ) events = some s) :
    (s.returned.map Prod.fst).Nodup ∧ (∀ name data, (name, data) ∈ s.returned → name ∉ s.begun →
      ∃ info, s.rawInfo name = some info ∧ x.joined info (s.chunksOf info.nuid) = some data) ∧
    (∀ a ∈ s.answers, (∀ data ∈ a.result, ∃ nuid, (nuid, a.name, data) ∈ s.puts) ∧
      ∀ data ∈ a.expected, a.undeleted → a.result = some data) ∧
    ∀ nuid ∈ s.swept, ∀ info ∈ s.metas, info.nuid ≠ nuid := by
  have hi : s.Inv x :=
    StepSystem.run_invariant _ (I := Inv x) (fun _ _ _ h ht => h.event ht) .start hrun
  refine ⟨hi.objects.once, fun name data he hb => ?_, hi.objects.answers,
    fun nuid hu => (hi.objects.swept nuid hu).2⟩
  obtain ⟨info, hinfo, hmem, hr⟩ := hi.exists_of_returned he hb
  exact ⟨info, hinfo, hi.joined_eq hmem hr ((mem_of_rawInfo hinfo).2 ▸ hb)⟩

def byteChunks : ObjectSetup Nat (List Nat) := ⟨1, Nat.one_pos, id, Function.injective_id⟩

/-- One put returns and one is not acknowledged after its first chunk. A sweep purges that chunk; a
get of the first object reads it whole. -/
def tornPut : List (StoreEvent Nat Nat Nat Bool) :=
  [(true, .claim [['a'], ['w'], ['1'], ['b']]), (true, .put 1 [7, 8]), (true, .startPut 10),
    (true, .publish .acked), (true, .publish .acked), (true, .publish .acked),
      (true, .put 2 [9, 9]),
    (true, .startPut 11), (true, .publish .unacked), (true, .release), (false, .sweep),
    (false, .next), (false, .next), (false, .next), (false, .next), (false, .next), (false, .next),
    (false, .next), (false, .next), (true, .get 1), (true, .next), (true, .next)].map
    fun a => .call a.1 a.2

theorem sweeps_keep_tornPut : ∃ s, ((system byteChunks).guard NotRewritten).run start tornPut =
    some s ∧
    (s.swept = [11] ∧ s.chunks = [(10, [7]), (10, [8])] ∧ (1, [7, 8]) ∈ s.returned ∧ s.begun = []) ∧
    ∃ info, s.rawInfo 1 = some info ∧
      byteChunks.joined info (s.chunksOf info.nuid) = some [7, 8] := by
  refine StepSystem.exists_run_and _ (by decide) fun s hr hs => ?_
  refine (sweeps_keep_objects hr).2.1 1 [7, 8] hs.2.2.1 ?_
  rw [hs.2.2.2]
  exact not_mem_nil

end Runs

end ObjectStore

end ThreeTears
