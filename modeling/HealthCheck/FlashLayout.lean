import HealthCheck.W25q64

/-!
# Sector allocation

The sectors of `flash_layout.h`, allocated from the top of the address space downward.
-/

namespace HealthCheck.FlashLayout

open W25q64

/-- The `n`th sector from the top. -/
def sector (n : ℕ) : ℕ := capacityBytes - n * sectorSize

def userStoreSectorA : ℕ := sector 2
def userStoreSectorB : ℕ := sector 1

def healthCheckConfigSectorA : ℕ := sector 4
def healthCheckConfigSectorB : ℕ := sector 3

def tlsServerCredentialsSectorA : ℕ := sector 6
def tlsServerCredentialsSectorB : ℕ := sector 5

def healthCheckLogSector0 : ℕ := sector 8
def healthCheckLogSector1 : ℕ := sector 7

def tlsTrustStoreBankA : ℕ := sector 15
def tlsTrustStoreBankB : ℕ := sector 12
def tlsTrustStoreBankSectors : ℕ := 3

def factoryResetMarkerSector : ℕ := sector 16
def factoryResetDataSectors : ℕ := 15

def callbackConfigSectorA : ℕ := sector 18
def callbackConfigSectorB : ℕ := sector 17

/-- Where version 1 of the trust store had its banks. -/
def tlsTrustStoreLegacyBankA : ℕ := sector 12
def tlsTrustStoreLegacyBankB : ℕ := sector 10

end HealthCheck.FlashLayout
