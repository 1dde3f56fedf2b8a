import ImageReader.Entries
import Mathlib.Logic.Function.Basic
import Mathlib.Logic.Relation

/-!
# Credentials which all reads share

The reads of all sources sign with one set of credentials, which runs out.
Before its request a read sees to it, under a lock, that they are fresh, takes
a clone of them, and hands the clone to the bucket of its source if that signs
with others.

The steps of any number of reads interleave with each other and with the
clock.  What a provider returns is as it may be, also expired again.  Nothing
is wrong with the lock, but two reads of a source may hand it their clones in
either order: so a request may be signed with the clone of another read.

The `RwLock` of a bucket is left out.  A read has one guard of it at a time: to
compare, to update, or over its request.  The lock holds up an update until the
requests of its source have ended, and orders the steps here no further.
-/

namespace ImageReader
namespace S3Creds

/-- What is signed with, and when it runs out, in seconds. -/
structure Credentials where
  accessKey : Option String
  secretKey : Option String
  sessionToken : Option String
  expiration : Option ℕ
  deriving DecidableEq, Repr

/-- `EXPIRY_SKEW` -/
def expirySkew : ℕ := 5 * 60

def isExpired (creds : Credentials) (now : ℕ) : Bool :=
  match creds.expiration with
  | some exp => exp ≤ now + expirySkew
  | none => false

/-- Only what is signed with counts. -/
def credentialsRotated (current fresh : Credentials) : Bool :=
  current.accessKey != fresh.accessKey ||
    current.secretKey != fresh.secretKey ||
    current.sessionToken != fresh.sessionToken

/-- Where a read of a source is in `sync_credentials`, or behind it. -/
inductive Phase where
  /-- `refresh_lock.lock().await` -/
  | entering
  | checking
  /-- `chain.provide_credentials().await`, for credentials found to be expired
  at a time -/
  | providing (seen : Credentials) (time : ℕ)
  /-- `ensure_fresh_async` is over -/
  | fresh
  /-- with a clone of the shared credentials -/
  | comparing (clone : Credentials)
  | updating (clone : Credentials)
  | synced (clone : Credentials)
  /-- the request is signed, with the credentials of the bucket -/
  | signed (clone current : Credentials)
  | failed
  deriving DecidableEq, Repr

structure Read where
  source : ℕ
  calledAt : ℕ
  phase : Phase
  deriving DecidableEq, Repr

def Read.hasLock (read : Read) : Bool :=
  match read.phase with
  | .checking => true
  | .providing _ _ => true
  | _ => false

def Read.ended (read : Read) : Bool :=
  match read.phase with
  | .signed _ _ => true
  | .failed => true
  | _ => false

/-- A refresh which is over: what it has found, when, and what it has got. -/
structure Refresh where
  seen : Credentials
  time : ℕ
  got : Credentials
  deriving DecidableEq, Repr

/-- The clone which a read has handed to the bucket of its source. -/
structure Update where
  source : ℕ
  calledAt : ℕ
  time : ℕ
  clone : Credentials
  deriving DecidableEq, Repr

/-- `refreshes` and `updates` are histories. -/
structure Auth where
  now : ℕ
  locked : Bool
  shared : Credentials
  buckets : ℕ → Credentials
  reads : List Read
  refreshes : List Refresh
  updates : List Update

namespace Auth

/-- A read moves on to a phase. -/
def move (s : Auth) (i : ℕ) (read : Read) (phase : Phase) : Auth :=
  { s with reads := s.reads.set i { read with phase } }

def lock (s : Auth) : Auth := { s with locked := true }

def unlock (s : Auth) : Auth := { s with locked := false }

def store (s : Auth) (refresh : Refresh) : Auth :=
  { s with
    shared := refresh.got
    refreshes := s.refreshes ++ [refresh] }

/-- `bucket.write().await.set_credentials(creds)` -/
def setCredentials (s : Auth) (read : Read) (clone : Credentials) : Auth :=
  { s with
    buckets := Function.update s.buckets read.source clone
    updates := s.updates ++ [⟨read.source, read.calledAt, s.now, clone⟩] }

def call (s : Auth) (source : ℕ) : Auth :=
  { s with reads := s.reads ++ [⟨source, s.now, .entering⟩] }

/-- The credentials which were resolved at the opening, and buckets which may
have others by now. -/
def opened (creds : Credentials) (buckets : ℕ → Credentials) (now : ℕ) : Auth :=
  ⟨now, false, creds, buckets, [], [], []⟩

end Auth

/-- One step of a read; `chain` tells whether there is a provider.  The
credentials of a bucket may be unreadable, and a request may fail before it is
signed. -/
inductive ReadStep (chain : Bool) : Auth → Auth → Prop
  | lock {s : Auth} {i : ℕ} {read : Read}
      (hread : s.reads[i]? = some read) (hphase : read.phase = .entering)
      (hfree : s.locked = false) :
      ReadStep chain s (s.lock.move i read .checking)
  | anonymous {s : Auth} {i : ℕ} {read : Read}
      (hread : s.reads[i]? = some read) (hphase : read.phase = .checking)
      (hchain : chain = false) :
      ReadStep chain s (s.unlock.move i read .fresh)
  | unexpired {s : Auth} {i : ℕ} {read : Read}
      (hread : s.reads[i]? = some read) (hphase : read.phase = .checking)
      (hchain : chain = true) (hexpired : isExpired s.shared s.now = false) :
      ReadStep chain s (s.unlock.move i read .fresh)
  | expired {s : Auth} {i : ℕ} {read : Read}
      (hread : s.reads[i]? = some read) (hphase : read.phase = .checking)
      (hchain : chain = true) (hexpired : isExpired s.shared s.now = true) :
      ReadStep chain s (s.move i read (.providing s.shared s.now))
  | provided {s : Auth} {i time : ℕ} {read : Read} {seen : Credentials}
      (hread : s.reads[i]? = some read)
      (hphase : read.phase = .providing seen time) (got : Credentials) :
      ReadStep chain s
        ((s.store ⟨seen, time, got⟩).unlock.move i read .fresh)
  | unprovided {s : Auth} {i time : ℕ} {read : Read} {seen : Credentials}
      (hread : s.reads[i]? = some read)
      (hphase : read.phase = .providing seen time) :
      ReadStep chain s (s.unlock.move i read .failed)
  | clone {s : Auth} {i : ℕ} {read : Read}
      (hread : s.reads[i]? = some read) (hphase : read.phase = .fresh) :
      ReadStep chain s (s.move i read (.comparing s.shared))
  | differs {s : Auth} {i : ℕ} {read : Read} {clone : Credentials}
      (hread : s.reads[i]? = some read)
      (hphase : read.phase = .comparing clone)
      (hrotated : credentialsRotated (s.buckets read.source) clone = true) :
      ReadStep chain s (s.move i read (.updating clone))
  | same {s : Auth} {i : ℕ} {read : Read} {clone : Credentials}
      (hread : s.reads[i]? = some read)
      (hphase : read.phase = .comparing clone)
      (hrotated : credentialsRotated (s.buckets read.source) clone = false) :
      ReadStep chain s (s.move i read (.synced clone))
  | unreadable {s : Auth} {i : ℕ} {read : Read} {clone : Credentials}
      (hread : s.reads[i]? = some read)
      (hphase : read.phase = .comparing clone) :
      ReadStep chain s (s.move i read (.updating clone))
  | update {s : Auth} {i : ℕ} {read : Read} {clone : Credentials}
      (hread : s.reads[i]? = some read)
      (hphase : read.phase = .updating clone) :
      ReadStep chain s
        ((s.setCredentials read clone).move i read (.synced clone))
  | sign {s : Auth} {i : ℕ} {read : Read} {clone : Credentials}
      (hread : s.reads[i]? = some read)
      (hphase : read.phase = .synced clone) :
      ReadStep chain s
        (s.move i read (.signed clone (s.buckets read.source)))
  | unsigned {s : Auth} {i : ℕ} {read : Read} {clone : Credentials}
      (hread : s.reads[i]? = some read)
      (hphase : read.phase = .synced clone) :
      ReadStep chain s (s.move i read .failed)

/-- A step of a read, the clock, or a new read. -/
inductive Step (chain : Bool) : Auth → Auth → Prop
  | read {s s' : Auth} (h : ReadStep chain s s') : Step chain s s'
  | tick {s : Auth} {now : ℕ} (hle : s.now ≤ now) : Step chain s { s with now }
  | call {s : Auth} (source : ℕ) : Step chain s (s.call source)

open Relation (ReflTransGen) in
def Reachable (chain : Bool) (creds : Credentials) (buckets : ℕ → Credentials)
    (now : ℕ) (s : Auth) : Prop :=
  ReflTransGen (Step chain) (.opened creds buckets now) s

namespace Auth

/-! ## What the reads can rely on -/

/-- Credentials which were not expired at a time since, or which a refresh has
got since. -/
def Vetted (s : Auth) (since : ℕ) (creds : Credentials) : Prop :=
  (∃ time, since ≤ time ∧ time ≤ s.now ∧ isExpired creds time = false) ∨
    ∃ refresh ∈ s.refreshes, since ≤ refresh.time ∧ refresh.got = creds

/-- Credentials which sign like the clone of a read, or which another read has
handed to the bucket in the meantime. -/
def SignsFor (s : Auth) (read : Read) (clone current : Credentials) : Prop :=
  credentialsRotated current clone = false ∨
    ∃ update ∈ s.updates, update.source = read.source ∧
      read.calledAt ≤ update.time ∧ update.clone = current

/-- What holds for a read in its phase. -/
def Kept (chain : Bool) (s : Auth) (read : Read) : Prop :=
  match read.phase with
  | .providing seen time =>
      chain = true ∧ seen = s.shared ∧ isExpired seen time = true ∧
        read.calledAt ≤ time ∧ time ≤ s.now ∧
        ∀ refresh ∈ s.refreshes, refresh.time ≤ time
  | .fresh => chain = true → s.Vetted read.calledAt s.shared
  | .comparing clone => chain = true → s.Vetted read.calledAt clone
  | .updating clone => chain = true → s.Vetted read.calledAt clone
  | .synced clone =>
      (chain = true → s.Vetted read.calledAt clone) ∧
        s.SignsFor read clone (s.buckets read.source)
  | .signed clone current =>
      (chain = true → s.Vetted read.calledAt clone) ∧
        s.SignsFor read clone current
  | _ => True

structure Good (chain : Bool) (creds : Credentials) (s : Auth) : Prop where
  lock : s.reads.countP Read.hasLock = s.locked.toNat
  linked : s.refreshes.map Refresh.seen ++ [s.shared] =
    creds :: s.refreshes.map Refresh.got
  needed : ∀ refresh ∈ s.refreshes, isExpired refresh.seen refresh.time = true
  ordered : s.refreshes.Pairwise fun a b => a.time ≤ b.time
  past : ∀ refresh ∈ s.refreshes, refresh.time ≤ s.now
  anonymous : chain = false → s.refreshes = []
  called : ∀ read ∈ s.reads, read.calledAt ≤ s.now
  reads : ∀ read ∈ s.reads, s.Kept chain read
  updates : ∀ update ∈ s.updates, update.calledAt ≤ update.time ∧
    (chain = true → s.Vetted update.calledAt update.clone)

end Auth

theorem lt_of_isExpired {creds : Credentials} {time later : ℕ}
    (hnot : isExpired creds time = false)
    (hexpired : isExpired creds later = true) : time < later := by
  unfold isExpired at hnot hexpired
  cases hexp : creds.expiration with
  | none =>
      rw [hexp] at hexpired
      simp at hexpired
  | some exp =>
      rw [hexp] at hnot hexpired
      simp only [decide_eq_false_iff_not, decide_eq_true_eq] at hnot hexpired
      omega

theorem credentialsRotated_self (creds : Credentials) :
    credentialsRotated creds creds = false := by
  simp [credentialsRotated]

namespace Auth

variable {chain : Bool} {creds clone current : Credentials}
variable {buckets : ℕ → Credentials} {s s' : Auth} {read : Read}
variable {since now i : ℕ}

/-! ## What was vetted stays so -/

theorem Vetted.mono (h : s.Vetted since creds) (hnow : s.now ≤ s'.now)
    (hrefreshes : ∀ refresh ∈ s.refreshes, refresh ∈ s'.refreshes) :
    s'.Vetted since creds := by
  rcases h with ⟨time, hsince, hpast, hnot⟩ | ⟨refresh, hmem, hsince, hgot⟩
  · exact Or.inl ⟨time, hsince, hpast.trans hnow, hnot⟩
  · exact Or.inr ⟨refresh, hrefreshes refresh hmem, hsince, hgot⟩

theorem SignsFor.mono (h : s.SignsFor read clone current)
    (hupdates : ∀ update ∈ s.updates, update ∈ s'.updates) :
    s'.SignsFor read clone current := by
  rcases h with hsame | ⟨update, hmem, hupdate⟩
  · exact Or.inl hsame
  · exact Or.inr ⟨update, hupdates update hmem, hupdate⟩

/-- The clock may go on. -/
theorem Kept.tick (h : s.Kept chain read) (hle : s.now ≤ now) :
    ({ s with now } : Auth).Kept chain read := by
  have hmono : ∀ {since : ℕ} {creds : Credentials}, s.Vetted since creds →
      ({ s with now } : Auth).Vetted since creds :=
    fun hvetted => hvetted.mono hle fun _ hmem => hmem
  unfold Kept at h ⊢
  cases hphase : read.phase with
  | providing seen time =>
      simp only [hphase] at h ⊢
      obtain ⟨hchain, hseen, hexpired, hcalled, hpast, hrefreshes⟩ := h
      exact ⟨hchain, hseen, hexpired, hcalled, hpast.trans hle, hrefreshes⟩
  | fresh =>
      simp only [hphase] at h ⊢
      exact fun hchain => hmono (h hchain)
  | comparing clone | updating clone =>
      simp only [hphase] at h ⊢
      exact fun hchain => hmono (h hchain)
  | synced clone | signed clone current =>
      simp only [hphase] at h ⊢
      exact ⟨fun hchain => hmono (h.1 hchain), h.2⟩
  | entering | checking | failed => trivial

/-- Another read has handed its clone to a bucket. -/
theorem Kept.setCredentials (h : s.Kept chain read)
    (hcalled : read.calledAt ≤ s.now) (other : Read) (clone : Credentials) :
    (s.setCredentials other clone).Kept chain read := by
  have hsub : ∀ update ∈ s.updates,
      update ∈ (s.setCredentials other clone).updates :=
    fun update hmem => List.mem_append_left _ hmem
  unfold Kept at h ⊢
  cases hphase : read.phase with
  | synced mine =>
      simp only [hphase] at h ⊢
      refine ⟨h.1, ?_⟩
      by_cases hsource : read.source = other.source
      · refine Or.inr ⟨_, List.mem_append_right _ List.mem_cons_self,
          hsource.symm, hcalled, ?_⟩
        simp only [Auth.setCredentials]
        rw [hsource, Function.update_self]
      · have hother : (s.setCredentials other clone).buckets read.source =
            s.buckets read.source := Function.update_of_ne hsource _ _
        rw [hother]
        exact h.2.mono hsub
  | signed mine current =>
      simp only [hphase] at h ⊢
      exact ⟨h.1, h.2.mono hsub⟩
  | providing | fresh | comparing | updating =>
      simp only [hphase] at h ⊢
      exact h
  | entering | checking | failed => trivial

/-- Another read has stored what a refresh got.  What was not expired before
has expired at the time of the refresh, which is therefore later. -/
theorem Kept.store (h : s.Kept chain read) (hfree : read.hasLock = false)
    {refresh : Refresh} (hseen : refresh.seen = s.shared)
    (hexpired : isExpired refresh.seen refresh.time = true)
    (hlast : ∀ old ∈ s.refreshes, old.time ≤ refresh.time) :
    (s.store refresh).Kept chain read := by
  have hmono : ∀ {since : ℕ} {creds : Credentials}, s.Vetted since creds →
      (s.store refresh).Vetted since creds :=
    fun hvetted => hvetted.mono (le_refl _) fun _ hmem =>
      List.mem_append_left _ hmem
  unfold Kept at h ⊢
  cases hphase : read.phase with
  | providing seen time => simp [Read.hasLock, hphase] at hfree
  | fresh =>
      simp only [hphase] at h ⊢
      intro hchain
      refine Or.inr ⟨refresh, List.mem_append_right _ List.mem_cons_self,
        ?_, rfl⟩
      rcases h hchain with ⟨time, hsince, -, hnot⟩ | ⟨old, hmem, hsince, -⟩
      · have hlt := lt_of_isExpired hnot (hseen ▸ hexpired)
        exact hsince.trans hlt.le
      · exact hsince.trans (hlast old hmem)
  | comparing clone | updating clone =>
      simp only [hphase] at h ⊢
      exact fun hchain => hmono (h hchain)
  | synced clone | signed clone current =>
      simp only [hphase] at h ⊢
      exact ⟨fun hchain => hmono (h.1 hchain), h.2⟩
  | entering | checking | failed => trivial

/-! ## What a step keeps -/

theorem good_opened (chain : Bool) (creds : Credentials)
    (buckets : ℕ → Credentials) (now : ℕ) :
    (opened creds buckets now).Good chain creds where
  lock := rfl
  linked := rfl
  needed := fun _ h => by simp [opened] at h
  ordered := List.Pairwise.nil
  past := fun _ h => by simp [opened] at h
  anonymous := fun _ => rfl
  called := fun _ h => by simp [opened] at h
  reads := fun _ h => by simp [opened] at h
  updates := fun _ h => by simp [opened] at h

theorem Good.tick (h : s.Good chain creds) (hle : s.now ≤ now) :
    ({ s with now } : Auth).Good chain creds :=
  { h with
    past := fun refresh hmem => (h.past refresh hmem).trans hle
    called := fun read hmem => (h.called read hmem).trans hle
    reads := fun read hmem => (h.reads read hmem).tick hle
    updates := fun update hmem => ⟨(h.updates update hmem).1, fun hchain =>
      ((h.updates update hmem).2 hchain).mono hle fun _ hold => hold⟩ }

theorem Good.call (h : s.Good chain creds) (source : ℕ) :
    (s.call source).Good chain creds := by
  refine { h with lock := ?_, called := ?_, reads := ?_ }
  · have hlock := h.lock
    simp only [Auth.call]
    rw [List.countP_append, hlock]
    rfl
  · intro read hmem
    rcases List.mem_append.mp hmem with hold | hnew
    · exact h.called read hold
    · obtain rfl := List.mem_singleton.mp hnew
      exact le_refl s.now
  · intro read hmem
    rcases List.mem_append.mp hmem with hold | hnew
    · exact h.reads read hold
    · obtain rfl := List.mem_singleton.mp hnew
      trivial

/-- A read moves on, and takes the lock along or leaves it behind. -/
theorem Good.move (h : s.Good chain creds) (hread : s.reads[i]? = some read)
    (locked : Bool) {phase : Phase}
    (hlock : s.locked.toNat + ({ read with phase } : Read).hasLock.toNat =
      locked.toNat + read.hasLock.toNat)
    (hkept : s.Kept chain { read with phase }) :
    (({ s with locked } : Auth).move i read phase).Good chain creds := by
  have hmem := List.mem_of_getElem? hread
  refine { h with lock := ?_, called := ?_, reads := ?_ }
  · have hset := countP_set Read.hasLock ({ read with phase } : Read) hread
    have hold := h.lock
    simp only [Auth.move]
    omega
  · intro other hother
    rcases List.mem_or_eq_of_mem_set hother with hold | rfl
    · exact h.called other hold
    · exact h.called read hmem
  · intro other hother
    rcases List.mem_or_eq_of_mem_set hother with hold | rfl
    · exact h.reads other hold
    · exact hkept

theorem Good.setCredentials (h : s.Good chain creds) (hmem : read ∈ s.reads)
    (hphase : read.phase = .updating clone) :
    (s.setCredentials read clone).Good chain creds := by
  have hvetted := h.reads read hmem
  simp only [Kept, hphase] at hvetted
  refine { h with reads := ?_, updates := ?_ }
  · intro other hother
    exact (h.reads other hother).setCredentials (h.called other hother) _ _
  · intro update hupdate
    rcases List.mem_append.mp hupdate with hold | hnew
    · exact h.updates update hold
    · obtain rfl := List.mem_singleton.mp hnew
      exact ⟨h.called read hmem, hvetted⟩

theorem Good.kept (h : s.Good chain creds) (hread : s.reads[i]? = some read) :
    s.Kept chain read :=
  h.reads read (List.mem_of_getElem? hread)

theorem Good.locked_of_hasLock (h : s.Good chain creds)
    (hread : s.reads[i]? = some read) (hlock : read.hasLock = true) :
    s.locked = true := by
  have hpos : 0 < s.reads.countP Read.hasLock :=
    List.countP_pos_iff.mpr ⟨read, List.mem_of_getElem? hread, hlock⟩
  rw [h.lock] at hpos
  cases hlocked : s.locked with
  | true => rfl
  | false =>
      rw [hlocked] at hpos
      simp at hpos

/-- The read with the lock stores what it got: nobody else has the lock, and
what the last refresh got is what it has found. -/
theorem Good.provided (h : s.Good chain creds)
    (hread : s.reads[i]? = some read) {seen : Credentials} {time : ℕ}
    (hphase : read.phase = .providing seen time) (got : Credentials) :
    ((s.store ⟨seen, time, got⟩).unlock.move i read .fresh).Good
      chain creds := by
  have hmem := List.mem_of_getElem? hread
  have hkept := h.reads read hmem
  simp only [Kept, hphase] at hkept
  obtain ⟨hchain, hseen, hexpired, hcalled, hpast, hlast⟩ := hkept
  have hholds : read.hasLock = true := by
    simp only [Read.hasLock, hphase]
  have hset := countP_set Read.hasLock ({ read with phase := .fresh } : Read)
    hread
  have hlocked := h.lock
  have hle := Bool.toNat_le s.locked
  rw [hholds] at hset
  have hnone : (s.reads.set i { read with phase := .fresh }).countP
      Read.hasLock = 0 := by
    have hnew : ({ read with phase := .fresh } : Read).hasLock = false := rfl
    rw [hnew] at hset
    simp only [Bool.toNat_true, Bool.toNat_false] at hset
    omega
  refine ⟨hnone, ?_, ?_, ?_, ?_, ?_, ?_, ?_, ?_⟩
  · have hlinked := h.linked
    simp only [Auth.move, unlock, store]
    rw [List.map_append, List.map_append, List.map_singleton,
      List.map_singleton, hseen, hlinked]
    rfl
  · intro refresh hrefresh
    rcases List.mem_append.mp hrefresh with hold | hnew
    · exact h.needed refresh hold
    · obtain rfl := List.mem_singleton.mp hnew
      exact hexpired
  · refine List.pairwise_append.mpr ⟨h.ordered, List.pairwise_singleton _ _, ?_⟩
    intro old hold new hnew
    obtain rfl := List.mem_singleton.mp hnew
    exact hlast old hold
  · intro refresh hrefresh
    rcases List.mem_append.mp hrefresh with hold | hnew
    · exact h.past refresh hold
    · obtain rfl := List.mem_singleton.mp hnew
      exact hpast
  · intro hnochain
    rw [hchain] at hnochain
    simp at hnochain
  · intro other hother
    rcases List.mem_or_eq_of_mem_set hother with hold | rfl
    · exact h.called other hold
    · exact h.called read hmem
  · intro other hother
    have hfree : other.hasLock = false := by
      simpa using List.countP_eq_zero.mp hnone other hother
    rcases List.mem_or_eq_of_mem_set hother with hold | rfl
    · exact @Kept.store chain s other (h.reads other hold) hfree
        ⟨seen, time, got⟩ hseen hexpired hlast
    · exact fun _ => Or.inr ⟨_, List.mem_append_right _ List.mem_cons_self,
        hcalled, rfl⟩
  · intro update hupdate
    refine ⟨(h.updates update hupdate).1, fun hchain => ?_⟩
    exact ((h.updates update hupdate).2 hchain).mono (le_refl _)
      fun _ hold => List.mem_append_left _ hold

end Auth

open Auth

variable {chain : Bool} {creds : Credentials} {buckets : ℕ → Credentials}
variable {now : ℕ} {s s' : Auth}

theorem ReadStep.good (hstep : ReadStep chain s s') (h : s.Good chain creds) :
    s'.Good chain creds := by
  cases hstep with
  | @lock i read hread hphase hfree =>
      refine h.move hread true ?_ trivial
      simp [Read.hasLock, hphase, hfree]
  | @anonymous i read hread hphase hchain =>
      refine h.move hread false ?_ ?_
      · have hlocked := h.locked_of_hasLock hread (by
          simp [Read.hasLock, hphase])
        simp [Read.hasLock, hphase, hlocked]
      · intro hprovider
        rw [hchain] at hprovider
        simp at hprovider
  | @unexpired i read hread hphase hchain hexpired =>
      refine h.move hread false ?_ ?_
      · have hlocked := h.locked_of_hasLock hread (by
          simp [Read.hasLock, hphase])
        simp [Read.hasLock, hphase, hlocked]
      · exact fun _ => Or.inl ⟨s.now,
          h.called read (List.mem_of_getElem? hread), le_refl _, hexpired⟩
  | @expired i read hread hphase hchain hexpired =>
      refine h.move hread s.locked ?_ ?_
      · simp [Read.hasLock, hphase]
      · exact ⟨hchain, rfl, hexpired,
          h.called read (List.mem_of_getElem? hread), le_refl _, h.past⟩
  | provided hread hphase got => exact h.provided hread hphase got
  | @unprovided i time read seen hread hphase =>
      refine h.move hread false ?_ trivial
      have hlocked := h.locked_of_hasLock hread (by
        simp [Read.hasLock, hphase])
      simp [Read.hasLock, hphase, hlocked]
  | @clone i read hread hphase =>
      refine h.move hread s.locked (by simp [Read.hasLock, hphase]) ?_
      have hkept := h.kept hread
      simpa only [Kept, hphase] using hkept
  | @differs i read clone hread hphase hrotated =>
      refine h.move hread s.locked (by simp [Read.hasLock, hphase]) ?_
      have hkept := h.kept hread
      simpa only [Kept, hphase] using hkept
  | @same i read clone hread hphase hrotated =>
      refine h.move hread s.locked (by simp [Read.hasLock, hphase]) ?_
      have hkept := h.kept hread
      simp only [Kept, hphase] at hkept
      exact ⟨hkept, Or.inl hrotated⟩
  | @unreadable i read clone hread hphase =>
      refine h.move hread s.locked (by simp [Read.hasLock, hphase]) ?_
      have hkept := h.kept hread
      simpa only [Kept, hphase] using hkept
  | @update i read clone hread hphase =>
      have hkept := h.kept hread
      simp only [Kept, hphase] at hkept
      refine (h.setCredentials (List.mem_of_getElem? hread) hphase).move hread
        s.locked (by simp [Read.hasLock, hphase, Auth.setCredentials]) ?_
      refine ⟨hkept, Or.inl ?_⟩
      simp only [Auth.setCredentials]
      rw [Function.update_self]
      exact credentialsRotated_self clone
  | @sign i read clone hread hphase =>
      refine h.move hread s.locked (by simp [Read.hasLock, hphase]) ?_
      have hkept := h.kept hread
      simp only [Kept, hphase] at hkept
      exact hkept
  | @unsigned i read clone hread hphase =>
      exact h.move hread s.locked (by simp [Read.hasLock, hphase]) trivial

theorem Step.good (hstep : Step chain s s') (h : s.Good chain creds) :
    s'.Good chain creds := by
  cases hstep with
  | read hread => exact hread.good h
  | tick hle => exact h.tick hle
  | call source => exact h.call source

theorem Reachable.good (h : Reachable chain creds buckets now s) :
    s.Good chain creds := by
  induction h with
  | refl => exact good_opened chain creds buckets now
  | tail _ hstep ih => exact hstep.good ih

/-! ## What is signed with -/

/-- One refresh at a time, of what the last one got and only once it has
expired; and requests signed with what was fresh when they, or others of their
source which went on beside them, were called. -/
structure Auth.Refreshed (chain : Bool) (creds : Credentials) (s : Auth) :
    Prop where
  single : s.reads.countP Read.hasLock ≤ 1
  linked : s.refreshes.map Refresh.seen ++ [s.shared] =
    creds :: s.refreshes.map Refresh.got
  needed : ∀ refresh ∈ s.refreshes, isExpired refresh.seen refresh.time = true
  ordered : s.refreshes.Pairwise fun a b => a.time ≤ b.time
  anonymous : chain = false → s.refreshes = []
  signed : ∀ read ∈ s.reads, ∀ clone current,
    read.phase = .signed clone current →
      (chain = true → s.Vetted read.calledAt clone) ∧
        s.SignsFor read clone current
  updates : chain = true → ∀ update ∈ s.updates,
    s.Vetted update.calledAt update.clone

theorem reachable_refreshed (h : Reachable chain creds buckets now s) :
    s.Refreshed chain creds := by
  have hgood := h.good
  refine ⟨?_, hgood.linked, hgood.needed, hgood.ordered, hgood.anonymous,
    ?_, fun hchain update hmem => (hgood.updates update hmem).2 hchain⟩
  · rw [hgood.lock]
    exact Bool.toNat_le s.locked
  · intro read hmem clone current hphase
    have hkept := hgood.reads read hmem
    simpa only [Kept, hphase] using hkept

/-- A read takes its clone, the credentials expire, a second read of the same
source refreshes them and updates the bucket; then the first one puts the old
ones back, and the second request is signed with these. -/
theorem reachable_refreshed_overtaken :
    let old : Credentials := ⟨some "a", some "b", none, some 1000⟩
    let new : Credentials := ⟨some "c", some "d", none, some 5000⟩
    (Auth.mk 900 false new (Function.update (Function.update (fun _ => old)
          7 new) 7 old)
        [⟨7, 0, .synced old⟩, ⟨7, 900, .signed new old⟩]
        [⟨old, 900, new⟩]
        [⟨7, 900, 900, new⟩, ⟨7, 0, 900, old⟩]).Refreshed true old := by
  intro old new
  refine @reachable_refreshed true old (fun _ => old) 0 _ ?_
  have hopened := Relation.ReflTransGen.refl (r := Step true)
    (a := Auth.opened old (fun _ => old) 0)
  have hcloned := (((hopened.tail (.call 7)).tail
    (.read (.lock (i := 0) rfl rfl rfl))).tail
    (.read (.unexpired (i := 0) rfl rfl rfl rfl))).tail
    (.read (.clone (i := 0) rfl rfl))
  have hrefreshed := ((((hcloned.tail (@Step.tick true _ 900 (by decide))).tail
    (.call 7)).tail
    (.read (.lock (i := 1) rfl rfl rfl))).tail
    (.read (.expired (i := 1) rfl rfl rfl rfl))).tail
    (.read (.provided (i := 1) rfl rfl new))
  have hsynced := ((hrefreshed.tail
    (.read (.clone (i := 1) rfl rfl))).tail
    (.read (.differs (i := 1) rfl rfl rfl))).tail
    (.read (.update (i := 1) rfl rfl))
  have hsigned := ((hsynced.tail
    (.read (.differs (i := 0) rfl rfl rfl))).tail
    (.read (.update (i := 0) rfl rfl))).tail
    (.read (.sign (i := 1) rfl rfl))
  exact hsigned

/-! ## The reads come to an end -/

/-- How many steps a read has in front of it, at most. -/
def Read.work (read : Read) : ℕ :=
  match read.phase with
  | .entering => 7
  | .checking => 6
  | .providing _ _ => 5
  | .fresh => 4
  | .comparing _ => 3
  | .updating _ => 2
  | .synced _ => 1
  | .signed _ _ => 0
  | .failed => 0

def Auth.work (s : Auth) : ℕ := (s.reads.map Read.work).sum

theorem ReadStep.work_lt (hstep : ReadStep chain s s') : s'.work < s.work := by
  cases hstep with
  | lock hread hphase | anonymous hread hphase | unexpired hread hphase
  | expired hread hphase | provided hread hphase | unprovided hread hphase
  | clone hread hphase | differs hread hphase | same hread hphase
  | unreadable hread hphase | update hread hphase | sign hread hphase
  | unsigned hread hphase =>
      refine sum_map_set_lt hread ?_
      simp only [Read.work, hphase]
      decide

/-- The read with the lock waits for nobody but the provider. -/
theorem exists_step_of_hasLock {i : ℕ} {read : Read}
    (hread : s.reads[i]? = some read) (hlock : read.hasLock = true) :
    ∃ s', ReadStep chain s s' := by
  cases hphase : read.phase with
  | checking =>
      cases hchain : chain with
      | false => exact ⟨_, .anonymous hread hphase rfl⟩
      | true =>
          cases hexpired : isExpired s.shared s.now with
          | false => exact ⟨_, .unexpired hread hphase rfl hexpired⟩
          | true => exact ⟨_, .expired hread hphase rfl hexpired⟩
  | providing seen time => exact ⟨_, .unprovided hread hphase⟩
  | _ => simp [Read.hasLock, hphase] at hlock

theorem Reachable.exists_step (h : Reachable chain creds buckets now s)
    {read : Read} (hmem : read ∈ s.reads) (hgoing : read.ended = false) :
    ∃ s', ReadStep chain s s' := by
  obtain ⟨i, hread⟩ := List.mem_iff_getElem?.mp hmem
  cases hphase : read.phase with
  | entering =>
      cases hlocked : s.locked with
      | false => exact ⟨_, .lock hread hphase hlocked⟩
      | true =>
          have hcount := h.good.lock
          rw [hlocked] at hcount
          have hpos : 0 < s.reads.countP Read.hasLock := by
            rw [hcount]
            exact Nat.one_pos
          obtain ⟨holder, hholder, hlock⟩ := List.countP_pos_iff.mp hpos
          obtain ⟨j, hget⟩ := List.mem_iff_getElem?.mp hholder
          exact exists_step_of_hasLock hget hlock
  | checking | providing seen time =>
      exact exists_step_of_hasLock hread (by simp [Read.hasLock, hphase])
  | fresh => exact ⟨_, .clone hread hphase⟩
  | comparing clone =>
      cases hrotated : credentialsRotated (s.buckets read.source) clone with
      | true => exact ⟨_, .differs hread hphase hrotated⟩
      | false => exact ⟨_, .same hread hphase hrotated⟩
  | updating clone => exact ⟨_, .update hread hphase⟩
  | synced clone => exact ⟨_, .sign hread hphase⟩
  | signed clone current => simp [Read.ended, hphase] at hgoing
  | failed => simp [Read.ended, hphase] at hgoing

/-- Whatever the providers return and however the clock goes, no read is stuck
behind the lock, each step brings one nearer to its end, and a read which has
ended, also one that has failed, has not kept the lock. -/
theorem reads_end (chain : Bool) (creds : Credentials)
    (buckets : ℕ → Credentials) (now : ℕ) :
    (∀ s, Reachable chain creds buckets now s →
      (∃ read ∈ s.reads, read.ended = false) → ∃ s', ReadStep chain s s') ∧
    (WellFounded fun s' s : Auth => ReadStep chain s s') ∧
    ∀ s, Reachable chain creds buckets now s →
      (∀ read ∈ s.reads, read.ended = true) → s.locked = false := by
  refine ⟨?_, ?_, ?_⟩
  · rintro s h ⟨read, hmem, hgoing⟩
    exact h.exists_step hmem hgoing
  · exact Subrelation.wf (fun hstep => ReadStep.work_lt hstep)
      (InvImage.wf Auth.work wellFounded_lt)
  · intro s h hended
    have hnone : s.reads.countP Read.hasLock = 0 := by
      rw [List.countP_eq_zero]
      intro read hmem
      have hread := hended read hmem
      cases hphase : read.phase <;>
        simp [Read.hasLock, Read.ended, hphase] at hread ⊢
    rw [h.good.lock] at hnone
    simpa using hnone

/-- One read waits for new credentials, and another one for the lock: both come
to their ends. -/
theorem reads_end_waiting :
    let old : Credentials := ⟨some "a", some "b", none, some 1000⟩
    ∃ s, Relation.ReflTransGen (ReadStep true)
        (Auth.mk 900 true old (fun _ => old)
          [⟨7, 900, .providing old 900⟩, ⟨7, 900, .entering⟩] [] []) s ∧
      (∀ read ∈ s.reads, read.ended = true) ∧ s.locked = false := by
  intro old
  obtain ⟨hstep, hwf, hfree⟩ := reads_end true old (fun _ => old) 900
  have hopened := Relation.ReflTransGen.refl (r := Step true)
    (a := Auth.opened old (fun _ => old) 900)
  have hwaiting : Reachable true old (fun _ => old) 900 _ :=
    (((hopened.tail (.call 7)).tail (.call 7)).tail
      (.read (.lock (i := 0) rfl rfl rfl))).tail
      (.read (.expired (i := 0) rfl rfl rfl rfl))
  have hend : ∀ s, Reachable true old (fun _ => old) 900 s →
      ∃ s', Relation.ReflTransGen (ReadStep true) s s' ∧
        Reachable true old (fun _ => old) 900 s' ∧
        ∀ read ∈ s'.reads, read.ended = true := by
    intro s
    induction s using hwf.induction with
    | _ s ih =>
        intro hreach
        by_cases hall : ∀ read ∈ s.reads, read.ended = true
        · exact ⟨s, .refl, hreach, hall⟩
        push Not at hall
        obtain ⟨read, hmem, hgoing⟩ := hall
        obtain ⟨s', hs'⟩ := hstep s hreach ⟨read, hmem, by simpa using hgoing⟩
        obtain ⟨s'', hruns, hreach', hended⟩ :=
          ih s' hs' (hreach.tail (.read hs'))
        exact ⟨s'', hruns.head hs', hreach', hended⟩
  obtain ⟨s, hruns, hreach, hended⟩ := hend _ hwaiting
  exact ⟨s, hruns, hended, hfree s hreach hended⟩

end S3Creds
end ImageReader
